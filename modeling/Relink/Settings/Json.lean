import Relink.Json.Skip
import Relink.Manifest.Inline
import Relink.Settings.Basic

/-!
# Settings in JSON

Settings are an object with the fields `search` and `pathMap`, in either order, and
any others, which are passed over; or an array with the two values in that order.
The document is read from left to right, once: whether its text or what it says is
wrong, the first thing that is wrong is what is told. Only a flaw of the scope has
to wait until the document has been read to its end.
-/

namespace Relink

/-! ### Scopes -/

namespace Scope

/-- Reads one attribute name, and keeps it before those read so far. -/
def readName (names : List String) (bs : Bytes) : Json.Reading (List String × Bytes) := do
  let (name, bs) ← Json.readString .string bs
  .ok (name :: names, bs)

/-- Reads the attribute names of one tag. -/
def readNames (bs : Bytes) : Json.Reading (List String × Bytes) :=
  match Json.skipBlanks bs with
  | [] => .error .truncated
  | b :: rest =>
    if b = Json.byte '[' then do
      let (names, rest) ← Json.readArray readName [] rest
      .ok (names.reverse, rest)
    else .error (Json.wrongKind .sequence (b :: rest))

/-- Reads the names of one tag, and puts them into the scope. -/
def readMember (s : Scope) (tag : String) (bs : Bytes) : Json.Reading (Scope × Bytes) := do
  let bs ← Json.readColon bs
  let (names, bs) ← readNames bs
  .ok (s.put tag names, bs)

/-- Reads a scope. -/
def read (bs : Bytes) : Json.Reading (Scope × Bytes) :=
  match Json.skipBlanks bs with
  | [] => .error .truncated
  | b :: rest =>
    if b = Json.byte '\x7b' then Json.readObject readMember empty rest
    else .error (Json.wrongKind .map (b :: rest))

/-- The scope that a document consists of. -/
def parse (content : Bytes) : Json.Reading Scope := Json.readAll read content

end Scope

/-! ### Settings -/

namespace ManifestSource

/-- Reads where the manifest comes from: a text is a path, an object the manifest. -/
def read (bs : Bytes) : Json.Reading (ManifestSource × Bytes) :=
  match Json.skipBlanks bs with
  | [] => .error .truncated
  | b :: rest =>
    if b = Json.byte '"' then do
      let (path, rest) ← Json.readText rest
      .ok (.file (.ofString path), rest)
    else if b = Json.byte '\x7b' then do
      let (manifest, rest) ← Manifest.readInline (Json.depthLimit - 1) (b :: rest)
      .ok (.inline manifest, rest)
    else .error (Json.wrongKind .source (b :: rest))

end ManifestSource

namespace Settings

/-- The result of a check, as the result of a reader. -/
def checked {α : Type} : Except Mismatch α → Json.Reading α
  | .ok a => .ok a
  | .error m => .error (.mismatch m)

/-- Reads one field, from its colon on. A field that was given before is refused by
its name alone. -/
def readField (p : Partial) (name : String) (bs : Bytes) : Json.Reading (Partial × Bytes) :=
  match Field.ofName? name with
  | some .scope =>
    if p.scope.isSome then .error (.mismatch .scopeTwice)
    else do
      let bs ← Json.readColon bs
      let (scope, bs) ← Scope.read bs
      .ok (⟨some scope, p.source⟩, bs)
  | some .source =>
    if p.source.isSome then .error (.mismatch .sourceTwice)
    else do
      let bs ← Json.readColon bs
      let (source, bs) ← ManifestSource.read bs
      .ok (⟨p.scope, some source⟩, bs)
  | none => do
    let bs ← Json.readColon bs
    let bs ← Json.skipValue bs
    .ok (p, bs)

/-- Reads settings by name, after the bracket. -/
def readFields (bs : Bytes) : Json.Reading (Settings × Bytes) := do
  let (p, bs) ← Json.readObject readField Partial.empty bs
  let settings ← checked p.complete
  .ok (settings, bs)

/-- Reads settings by position, after the bracket. -/
def readPositions (bs : Bytes) : Json.Reading (Settings × Bytes) := do
  match ← Json.nextItem? true bs with
  | none => .error (.mismatch .tooShort)
  | some bs =>
    let (scope, bs) ← Scope.read bs
    match ← Json.nextItem? false bs with
    | none => .error (.mismatch .tooShort)
    | some bs =>
      let (source, bs) ← ManifestSource.read bs
      let bs ← Json.closeArray bs
      .ok (⟨scope, source⟩, bs)

/-- Reads settings. -/
def readJson (bs : Bytes) : Json.Reading (Settings × Bytes) :=
  match Json.skipBlanks bs with
  | [] => .error .truncated
  | b :: rest =>
    if b = Json.byte '\x7b' then readFields rest
    else if b = Json.byte '[' then readPositions rest
    else .error (Json.wrongKind .settings (b :: rest))

/-- The settings of a document in JSON, before they are validated. -/
def decodeJson (text : String) : Json.Reading Settings :=
  Json.readAll readJson (Text.encode text)

/-- The settings of a document in JSON, which is named in failures by its path. -/
def parseJson (path : FilePath) (text : String) : Except Failure Settings :=
  match decodeJson text with
  | .error fault => .error (.jsonSettings path fault)
  | .ok settings => settings.validated

end Settings

end Relink
