import Relink.Entries

/-!
# Start tags

What a visitor of a markup tree may read and change of an element: its name,
which is fixed, and its attributes, which are not. The attributes of an element
form a table – no name occurs twice, and the order in which the names were first
set is kept, since it is the order in which they are printed.
-/

namespace Relink

/-- The attributes of an element: values by name, in the order in which the names
were first set. -/
abbrev Attributes := Table String

/-- An element without its content. -/
structure StartTag where
  /-- The name of the element. -/
  name : String
  /-- Its attributes, in order. -/
  attributes : Attributes
deriving DecidableEq

namespace StartTag

/-- The start tag without attributes. -/
def named (name : String) : StartTag := ⟨name, Table.empty⟩

/-- The value of an attribute, if it is present. -/
def get? (s : StartTag) (n : String) : Option String := s.attributes.get? n

/-- Sets an attribute: in place if it is present, after all others if it is not. -/
def set (s : StartTag) (n v : String) : StartTag := ⟨s.name, s.attributes.put n v⟩

/-- Removes an attribute. -/
def remove (s : StartTag) (n : String) : StartTag := ⟨s.name, s.attributes.drop n⟩

@[simp] theorem name_set (s : StartTag) (n v : String) : (s.set n v).name = s.name := rfl

@[simp] theorem name_remove (s : StartTag) (n : String) : (s.remove n).name = s.name := rfl

theorem get?_set (s : StartTag) (n v m : String) :
    (s.set n v).get? m = if n = m then some v else s.get? m :=
  Table.get?_put s.attributes n v m

theorem get?_remove (s : StartTag) (n m : String) :
    (s.remove n).get? m = if n = m then none else s.get? m :=
  Table.get?_drop s.attributes n m

end StartTag

end Relink
