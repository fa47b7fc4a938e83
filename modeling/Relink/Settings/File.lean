import Relink.Settings.Json
import Relink.Settings.Toml

/-!
# Settings files

The format of a settings file is told by the end of its name: `.json`, in capitals
or not, after at least one other character, stands for JSON, and everything else
for TOML.
-/

namespace Relink

namespace Settings

/-- A name without regard to ASCII capitals. -/
def lowercase (bs : Bytes) : Bytes :=
  bs.map fun b => if 0x41 ≤ b && b ≤ 0x5a then b + 0x20 else b

/-- The file is in JSON. -/
def isJsonPath (path : FilePath) : Bool :=
  match path.extension? with
  | some e => lowercase e == Text.encode "json"
  | none => false

/-- Loads the settings from the file at a path. -/
def load (path : FilePath) (files : FileSystem) : Except Failure Settings :=
  match files.readText path with
  | .error fault => .error (.settingsUnreadable path fault)
  | .ok text => if isJsonPath path then parseJson path text else parseToml path text

end Settings

end Relink
