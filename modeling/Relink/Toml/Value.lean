import Relink.Mismatch
import Relink.Toml.Number

/-!
# TOML values as they are written

A value as its text says it, before anything is made of its keys: an inline table
is a list of pairs of a dotted key and a value. Whether those keys go together is
decided where trees are built.
-/

namespace Relink

namespace Toml

/-- A scalar. -/
inductive Scalar where
  /-- A text. -/
  | string (s : String)
  /-- A truth value. -/
  | boolean (b : Bool)
  /-- A number. -/
  | number (n : Number)
  /-- A date or a time. -/
  | moment (m : Moment)
deriving DecidableEq

/-- A dotted key: its parts, of which there is at least one. -/
abbrev Key := List String

/-- A value as it is written. -/
inductive Value where
  /-- A scalar. -/
  | scalar (s : Scalar)
  /-- An array. -/
  | array (items : List Value)
  /-- An inline table. -/
  | inlineTable (pairs : List (Key × Value))

/-- One line of a document that says something, or a few if its value is long. -/
inductive Statement where
  /-- A key and its value. -/
  | pair (key : Key) (value : Value)
  /-- The header of a table. -/
  | table (key : Key)
  /-- The header of one more table of an array. -/
  | tableItem (key : Key)

/-- Why a TOML document could not be read. -/
inductive Fault where
  /-- The text is not TOML, or not portable where it does not say what is wanted. -/
  | malformed
  /-- The text is TOML, but does not say what is wanted. -/
  | mismatch (m : Mismatch)
deriving DecidableEq

end Toml

end Relink
