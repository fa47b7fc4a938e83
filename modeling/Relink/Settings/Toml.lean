import Relink.Settings.Basic
import Relink.Toml.Tree

/-!
# Settings in TOML

The same settings as in JSON, as a table. The text is read to its end before any
field is looked at, so what is wrong with the text goes first; the fields are then
taken in the order in which they came. TOML has no null, so `false` is the one way
to say that an attribute is to be removed.

What a field that nobody knows holds is of no consequence, up to numbers that are
not portable. A document with one of those is let pass when it says what is wanted;
when it does not, it counts as malformed, wherever the number stands.

A date or a time takes the place of a map that holds one text: wherever a map
would be taken apart, it is the text that is found.
-/

namespace Relink

namespace Toml

/-! ### Shapes -/

/-- How doubles are written: always without an exponent. A tie goes up. -/
def style : Decimal.Style := ⟨fun _ => true, .up, []⟩

/-- The shape of a number. -/
def Number.shape : Number → Shape
  | .integer i => .integer i
  | n => .floating (style.render n.double)

/-- The shape of an item. -/
def Item.shape : Item → Shape
  | .scalar (.string s) => .string s
  | .scalar (.boolean b) => .boolean b
  | .scalar (.number n) => n.shape
  | .scalar (.moment _) => .map
  | .array _ => .sequence
  | .tables _ => .sequence
  | .table _ _ => .map

/-- What is wrong with an item that is not what was expected. -/
def Item.mismatch (i : Item) (expected : Expected) : Mismatch := .shape i.shape expected

namespace Item

mutual

/-- Whether the numbers of an item are portable. -/
def isPortable : Item → Bool
  | .scalar (.number n) => n.isPortable
  | .scalar _ => true
  | .array items => allPortable items
  | .tables ts => tablesPortable ts
  | .table _ entries => entriesPortable entries

/-- The same for the items of an array. -/
def allPortable : List Item → Bool
  | [] => true
  | i :: is => i.isPortable && allPortable is

/-- The same for the tables of an array. -/
def tablesPortable : List (List (String × Item)) → Bool
  | [] => true
  | t :: ts => entriesPortable t && tablesPortable ts

/-- The same for the entries of a table. -/
def entriesPortable : List (String × Item) → Bool
  | [] => true
  | (_, i) :: es => i.isPortable && entriesPortable es

end

end Item

end Toml

/-! ### Scopes -/

namespace Scope

/-- An attribute name. -/
def nameOfToml : Toml.Item → Except Mismatch String
  | .scalar (.string s) => .ok s
  | i => .error (i.mismatch .string)

/-- Attribute names. -/
def namesOfItems : List Toml.Item → Except Mismatch (List String)
  | [] => .ok []
  | i :: is => do
    let name ← nameOfToml i
    let names ← namesOfItems is
    .ok (name :: names)

/-- The attribute names of one tag. -/
def namesOfToml : Toml.Item → Except Mismatch (List String)
  | .array items => namesOfItems items
  | .tables [] => .ok []
  | .tables (_ :: _) => .error (.shape .map .string)
  | i => .error (i.mismatch .sequence)

/-- A scope, tag after tag. -/
def ofEntries (s : Scope) : List (String × Toml.Item) → Except Mismatch Scope
  | [] => .ok s
  | (tag, i) :: es => do
    let names ← namesOfToml i
    ofEntries (s.put tag names) es

/-- A scope. -/
def ofToml : Toml.Item → Except Mismatch Scope
  | .table _ es => ofEntries empty es
  | .scalar (.moment m) => .error (.shape (.string m.text) .sequence)
  | i => .error (i.mismatch .map)

end Scope

/-! ### Manifests -/

namespace Manifest

/-- What the value of a path does to an attribute. -/
def replacementOfToml (path : String) : Toml.Item → Except Mismatch (Option String)
  | .scalar (.string s) => .ok (some s)
  | .scalar (.boolean false) => .ok none
  | .scalar (.boolean true) => .error (.replacementIsTrue path)
  | _ => .error .noReplacement

/-- A manifest, path after path. -/
def ofEntries (m : Manifest) : List (String × Toml.Item) → Except Mismatch Manifest
  | [] => .ok m
  | (path, i) :: es => do
    let r ← replacementOfToml path i
    ofEntries (m.put path r) es

end Manifest

namespace ManifestSource

/-- Where the manifest comes from: a text is a path, a table the manifest. -/
def ofToml : Toml.Item → Except Mismatch ManifestSource
  | .scalar (.string path) => .ok (.file (.ofString path))
  | .table _ es => do
    let m ← Manifest.ofEntries Table.empty es
    .ok (.inline m)
  | .scalar (.moment m) => .error (.shape (.string m.text) .option)
  | i => .error (i.mismatch .source)

end ManifestSource

/-! ### Settings -/

namespace Settings

/-- Takes in one field. -/
def fieldOfToml (p : Partial) (name : String) (i : Toml.Item) : Except Mismatch Partial :=
  match Field.ofName? name with
  | some .scope =>
    if p.scope.isSome then .error .scopeTwice
    else do
      let scope ← Scope.ofToml i
      .ok ⟨some scope, p.source⟩
  | some .source =>
    if p.source.isSome then .error .sourceTwice
    else do
      let source ← ManifestSource.ofToml i
      .ok ⟨p.scope, some source⟩
  | none => .ok p

/-- Takes in fields in order. -/
def fieldsOfToml (p : Partial) : List (String × Toml.Item) → Except Mismatch Partial
  | [] => .ok p
  | (name, i) :: es => do
    let p ← fieldOfToml p name i
    fieldsOfToml p es

/-- The settings that a table holds. -/
def ofToml (es : Entries Toml.Item) : Except Mismatch Settings := do
  let p ← fieldsOfToml Partial.empty es
  p.complete

/-- The settings of a document in TOML, before they are validated. -/
def decodeToml (text : String) : Except Toml.Fault Settings :=
  match Toml.ofText? text with
  | none => .error .malformed
  | some es =>
    match ofToml es with
    | .ok settings => .ok settings
    | .error m => .error (if Toml.Item.entriesPortable es then .mismatch m else .malformed)

/-- The settings of a document in TOML, which is named in failures by its path. -/
def parseToml (path : FilePath) (text : String) : Except Failure Settings :=
  match decodeToml text with
  | .error fault => .error (.tomlSettings path fault)
  | .ok settings => settings.validated

end Settings

end Relink
