import Relink.Event
import Relink.Json.Reader
import Relink.Manifest.Basic

/-!
# Manifest files

A manifest file is a JSON object from paths to replacements. A text replaces,
`null` and `false` remove, and an older layout, in which the replacement is the
`path` member of an object, is unwrapped first. The three steps do not overlap:
the whole file is read before any entry is looked at, so what is wrong with its
text goes before what is wrong with an entry, however early; all entries are
unwrapped; and only then is each one taken for a replacement, in order, up to the
first that is none.
-/

namespace Relink

namespace Manifest

/-- The replacement inside a value of the older layout. -/
def wrapped? : Json → Option String
  | .object members =>
    match Entries.get? members "path" with
    | some (.string s) => some s
    | _ => none
  | _ => none

/-- Unwraps the values of the older layout, and tells which. -/
def unwrap : Entries Json → Logged (Entries Json)
  | [] => pure []
  | (k, v) :: es =>
    match wrapped? v with
    | some s => do
      Logged.tell (.unwrapped k s)
      let es ← unwrap es
      pure ((k, .string s) :: es)
    | none => do
      let es ← unwrap es
      pure ((k, v) :: es)

/-- How many values are of the older layout. -/
def countWrapped (es : Entries Json) : Nat := es.countP fun e => (wrapped? e.2).isSome

/-- What a value does to the attribute of a path; nothing, if it is no replacement. -/
def replacement? : Json → Option (Option String)
  | .string s => some (some s)
  | .null => some none
  | .boolean false => some none
  | _ => none

/-- The manifest of the members of an object, or the first path without a proper
replacement. -/
def ofMembers (es : Entries Json) : Except Failure Manifest :=
  es.foldlM (fun m e =>
    match replacement? e.2 with
    | some r => .ok (m.put e.1 r)
    | none => .error (.badReplacement e.1)) Table.empty

/-- Reads an object as a document of its own. -/
def readMembers (bs : Bytes) : Json.Reading (Entries Json × Bytes) :=
  match Json.skipBlanks bs with
  | [] => .error .truncated
  | b :: rest =>
    if b = Json.byte '\x7b' then
      Json.readObject (Json.readMember (Json.readValue (Json.depthLimit - 1))) [] rest
    else .error (Json.wrongKind .map (b :: rest))

/-- The manifest that a file holds, which is named in failures by its path. -/
def parse (path : FilePath) (content : Bytes) : Logged (Except Failure Manifest) :=
  match Json.readAll readMembers content with
  | .error fault => pure (.error (.manifestMalformed path fault))
  | .ok members => do
    let members ← unwrap members
    pure (ofMembers members)

/-- Loads the manifest from the file at a path. -/
def load (path : FilePath) (files : FileSystem) : Logged (Except Failure Manifest) :=
  match files.read path with
  | .error fault => pure (.error (.manifestUnreadable path fault))
  | .ok content => do
    match ← parse path content with
    | .error failure => pure (.error failure)
    | .ok manifest =>
      Logged.tell (.loaded path manifest.size)
      pure (.ok manifest)

end Manifest

end Relink
