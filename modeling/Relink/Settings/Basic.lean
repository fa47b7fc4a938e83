import Relink.Failure
import Relink.Manifest.Basic

/-!
# Settings

What is configured: which attributes are looked at, and where the manifest comes
from – it is written out in the settings themselves, or it is in a file that is
read when it is first needed.
-/

namespace Relink

/-- Where the manifest comes from. -/
inductive ManifestSource where
  /-- It is given. -/
  | inline (manifest : Manifest)
  /-- It is in the file at the path. -/
  | file (path : FilePath)
deriving DecidableEq

/-- What is configured. -/
structure Settings where
  /-- The attributes to look at. -/
  scope : Scope
  /-- Where the manifest comes from. -/
  source : ManifestSource
deriving DecidableEq

namespace Settings

/-- Refuses settings whose scope has a flaw. -/
def validate (s : Settings) : Except Failure Unit :=
  match s.scope.flaw? with
  | some flaw => .error (.badScope flaw)
  | none => .ok ()

/-- Settings that have been validated. -/
def validated (s : Settings) : Except Failure Settings := do
  s.validate
  .ok s

/-- The fields of settings. -/
inductive Field where
  /-- The scope. -/
  | scope
  /-- The source of the manifest. -/
  | source
deriving DecidableEq

/-- The field that a name stands for: the source has three names. Other names stand
for nothing. -/
def Field.ofName? (name : String) : Option Field :=
  if name = "search" then some .scope
  else if name = "pathMap" ∨ name = "path-map" ∨ name = "path_map" then some .source
  else none

/-- Settings as far as they have been read. -/
structure Partial where
  /-- The scope, if it has been given. -/
  scope : Option Scope
  /-- The source, if it has been given. -/
  source : Option ManifestSource
deriving DecidableEq

namespace Partial

/-- Nothing has been read yet. -/
def empty : Partial := ⟨none, none⟩

/-- The settings, if nothing is missing. The scope has a standard, the source has
none. -/
def complete (p : Partial) : Except Mismatch Settings :=
  match p.source with
  | none => .error .noSource
  | some source => .ok ⟨p.scope.getD Scope.standard, source⟩

end Partial

end Settings

end Relink
