import Relink.Entries
import Relink.Toml.Reader

/-!
# TOML trees

A sequence of statements is made into one table of tables. Keys keep the place
where they first came, but for tables that get a header late. The work is in what
may not be done: no key is given twice, and a table may be extended only in the way
in which it came into being.

* A table *with a header* is complete when the next header comes; what is inside
  it may be opened, it may not be opened again itself.
* A table that is only *implied* by a longer header can still get one of its own,
  and takes its place anew where it does.
* A table made by a *dotted key* can be extended by further dotted keys, and
  headers may go through it, but it cannot get a header.
* An inline table is *closed* for good.
* An array of tables stands for its last table in the keys that go through it. An
  array that was written as a value does not.
-/

namespace Relink

namespace Toml

/-- How a table came into being. -/
inductive Origin where
  /-- It has a header. -/
  | header
  /-- It stands before the last dot of a header. -/
  | implied
  /-- It stands before the last dot of a key. -/
  | dotted
  /-- It was written as a value. -/
  | closed
deriving DecidableEq

/-- What a key of a document can stand for. -/
inductive Item where
  /-- A scalar. -/
  | scalar (s : Scalar)
  /-- An array that was written as a value. -/
  | array (items : List Item)
  /-- An array of tables with headers, the latest first. -/
  | tables (tables : List (List (String × Item)))
  /-- A table. -/
  | table (origin : Origin) (entries : List (String × Item))

/-! ### Keys and values -/

/-- Gives a key an item, relative to a table, making the tables before its dots.
Those that are there already must not have a header of their own, unless it is the
header of an array; and the table that the item goes into must be there by a dotted
key alone. -/
def assign (item : Item) : Key → Entries Item → Option (Entries Item)
  | [], _ => none
  | [k], es => if (Entries.get? es k).isSome then none else some (Entries.put es k item)
  | k :: k' :: ks, es =>
    match Entries.get? es k with
    | none => do
      let sub ← assign item (k' :: ks) []
      some (Entries.put es k (.table .dotted sub))
    | some (.table origin sub) =>
      if origin = .dotted ∨ (origin = .implied ∧ ks ≠ []) then do
        let sub ← assign item (k' :: ks) sub
        some (Entries.put es k (.table origin sub))
      else none
    | some (.tables (latest :: ts)) =>
      if ks ≠ [] then do
        let sub ← assign item (k' :: ks) latest
        some (Entries.put es k (.tables (sub :: ts)))
      else none
    | some _ => none

namespace Item

mutual

/-- The item of a value, if the keys of its inline tables go together. -/
def ofValue? : Value → Option Item
  | .scalar s => some (.scalar s)
  | .array vs => (ofValues? vs).map .array
  | .inlineTable ps => (ofPairs? [] ps).map (.table .closed)

/-- The items of values. -/
def ofValues? : List Value → Option (List Item)
  | [] => some []
  | v :: vs => do
    let item ← ofValue? v
    let items ← ofValues? vs
    some (item :: items)

/-- The entries of an inline table, after those before them. -/
def ofPairs? (es : Entries Item) : List (Key × Value) → Option (Entries Item)
  | [] => some es
  | (key, v) :: ps => do
    let item ← ofValue? v
    let es ← assign item key es
    ofPairs? es ps

end

end Item

/-! ### Headers -/

/-- Changes the table with the given key, going through tables that are not closed
and through the last table of an array, and making those that are not there. -/
def within (change : Entries Item → Option (Entries Item)) :
    Key → Entries Item → Option (Entries Item)
  | [], es => change es
  | k :: ks, es =>
    match Entries.get? es k with
    | none => do
      let sub ← within change ks []
      some (Entries.put es k (.table .implied sub))
    | some (.table origin sub) =>
      if origin = .closed then none
      else do
        let sub ← within change ks sub
        some (Entries.put es k (.table origin sub))
    | some (.tables (latest :: ts)) => do
      let sub ← within change ks latest
      some (Entries.put es k (.tables (sub :: ts)))
    | some _ => none

/-- Opens the table with the given name: a new one, or one that was implied. Either
comes after all that is there. -/
def openTable (name : String) (es : Entries Item) : Option (Entries Item) :=
  match Entries.get? es name with
  | none => some (Entries.put es name (.table .header []))
  | some (.table .implied sub) =>
    some (Entries.put (Entries.drop es name) name (.table .header sub))
  | some _ => none

/-- Opens one more table of the array with the given name, or the first one. -/
def openItem (name : String) (es : Entries Item) : Option (Entries Item) :=
  match Entries.get? es name with
  | none => some (Entries.put es name (.tables [[]]))
  | some (.tables ts) => some (Entries.put es name (.tables ([] :: ts)))
  | some _ => none

/-! ### Documents -/

/-- A document as far as its statements have been taken in. -/
structure Draft where
  /-- The document. -/
  root : Entries Item
  /-- The key of the table that is open. -/
  current : Key

namespace Draft

/-- The document without statements. -/
def empty : Draft := ⟨[], []⟩

/-- Opens a table by its header. -/
def openWith (d : Draft) (opening : String → Entries Item → Option (Entries Item)) (key : Key) :
    Option Draft := do
  let name ← key.getLast?
  let root ← within (opening name) key.dropLast d.root
  some ⟨root, key⟩

/-- Takes in a statement. -/
def add (d : Draft) : Statement → Option Draft
  | .pair key v => do
    let item ← Item.ofValue? v
    let root ← within (assign item key) d.current d.root
    some ⟨root, d.current⟩
  | .table key => d.openWith openTable key
  | .tableItem key => d.openWith openItem key

end Draft

/-- The table that statements make, if they go together. -/
def ofStatements? (ss : List Statement) : Option (Entries Item) :=
  (ss.foldlM Draft.add Draft.empty).map Draft.root

/-- The table that a document holds, if it is one. -/
def ofText? (text : String) : Option (Entries Item) := do
  let ss ← Statement.ofText? text.toList
  ofStatements? ss

end Toml

end Relink
