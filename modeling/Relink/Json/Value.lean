import Relink.Entries
import Relink.Json.Number
import Relink.Mismatch

/-!
# JSON values

The members of an object are entries: in order, and no name twice. A reader that
meets a name again keeps the member where it was and gives it the later value, at
every depth.
-/

namespace Relink

/-- A JSON value. -/
inductive Json where
  /-- The null value. -/
  | null
  /-- A truth value. -/
  | boolean (b : Bool)
  /-- A number. -/
  | number (n : Json.Number)
  /-- A text. -/
  | string (s : String)
  /-- An array. -/
  | array (items : List Json)
  /-- An object, its members in order. -/
  | object (members : List (String × Json))

namespace Json

/-- The shape of a number. -/
def Number.shape : Number → Shape
  | .integer i => .integer i
  | .decimal negative significand exponent =>
    .floating (style.render (double negative significand exponent))

/-- The shape of a value. -/
def shape : Json → Shape
  | .null => .null
  | .boolean b => .boolean b
  | .number n => n.shape
  | .string s => .string s
  | .array _ => .sequence
  | .object _ => .map

/-- Why a JSON document could not be read. -/
inductive Fault where
  /-- The text is not JSON, or past one of the limits of the reader. -/
  | malformed
  /-- The text ends inside a value. -/
  | truncated
  /-- The text is JSON as far as it was read, but does not say what is wanted. -/
  | mismatch (m : Mismatch)
deriving DecidableEq

end Json

end Relink
