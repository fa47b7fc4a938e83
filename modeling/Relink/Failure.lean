import Relink.FileSystem
import Relink.Json.Value
import Relink.Scope
import Relink.Toml.Value

/-!
# Failures

All that can go wrong between a configuration and the rules made of it, each with
its cause. What a failure says is told by `Failure.message` alone; the cause is
kept beside it and not repeated in the words.
-/

namespace Relink

/-- Why there are no settings, or no rules. -/
inductive Failure where
  /-- The file of the manifest could not be read. -/
  | manifestUnreadable (path : FilePath) (cause : ReadFault)
  /-- The file of the manifest is not a JSON object. -/
  | manifestMalformed (path : FilePath) (cause : Json.Fault)
  /-- The manifest gives a path something that is no replacement. -/
  | badReplacement (path : String)
  /-- The settings file could not be read. -/
  | settingsUnreadable (path : FilePath) (cause : ReadFault)
  /-- The settings are in TOML and could not be understood. -/
  | tomlSettings (path : FilePath) (cause : Toml.Fault)
  /-- The settings are in JSON and could not be understood. -/
  | jsonSettings (path : FilePath) (cause : Json.Fault)
  /-- The pattern of a path is too large. -/
  | patternTooLarge (path : String)
  /-- The scope of the settings has a flaw. -/
  | badScope (flaw : Scope.Flaw)
deriving DecidableEq

namespace Failure

/-- The failure in words. -/
def message : Failure → String
  | .manifestUnreadable path _ => "Failed to read path map file: " ++ path.display
  | .manifestMalformed path _ => "Failed to parse path map file: " ++ path.display
  | .badReplacement path =>
    "Invalid replacement for " ++ Text.quoted path ++
      ": expected a string, null, false or \x7b\"path\": string\x7d"
  | .settingsUnreadable path _ => "Failed to read options file: " ++ path.display
  | .tomlSettings path _ => "Failed to parse options file: " ++ path.display
  | .jsonSettings path _ => "Failed to parse options file: " ++ path.display
  | .patternTooLarge path => "Invalid pattern built from path: " ++ path
  | .badScope flaw => "Invalid search table: " ++ flaw.reason

end Failure

end Relink
