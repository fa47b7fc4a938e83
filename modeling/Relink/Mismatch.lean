import Relink.Text.Quoted

/-!
# Mismatches

A configuration document can be perfectly well formed and still not say what is
wanted. What was found instead is told by its shape – scalars with their value,
collections by their kind only – and what was wanted by the place in the
configuration. The two document formats share these, since they configure the
same things.
-/

namespace Relink

/-- What was found in a document. -/
inductive Shape where
  /-- Nothing, where the format has a word for it. -/
  | null
  /-- A truth value. -/
  | boolean (b : Bool)
  /-- An integer. -/
  | integer (i : Int)
  /-- A floating-point number, as its format writes it. -/
  | floating (text : String)
  /-- A text. -/
  | string (s : String)
  /-- A sequence of any kind. -/
  | sequence
  /-- A map of any kind. -/
  | map
deriving DecidableEq

/-- What was wanted. -/
inductive Expected where
  /-- Any map. -/
  | map
  /-- A list of attribute names. -/
  | sequence
  /-- An attribute name. -/
  | string
  /-- A replacement, or nothing. -/
  | option
  /-- The settings as a whole. -/
  | settings
  /-- Where the manifest comes from. -/
  | source
  /-- A manifest written out in place. -/
  | inlineManifest
deriving DecidableEq

/-- How a well-formed document fails to say what is wanted. -/
inductive Mismatch where
  /-- A value of one shape stands where another is wanted. -/
  | shape (found : Shape) (expected : Expected)
  /-- The settings do not say where the manifest comes from. -/
  | noSource
  /-- The settings give their scope twice. -/
  | scopeTwice
  /-- The settings say twice where the manifest comes from. -/
  | sourceTwice
  /-- Settings given by position end before the second position. -/
  | tooShort
  /-- A replacement is no text and no truth value. -/
  | noReplacement
  /-- The replacement of a path is the truth value that means nothing. -/
  | replacementIsTrue (path : String)
deriving DecidableEq

/-- What was found, in words. -/
def Shape.describe : Shape → String
  | .null => "null"
  | .boolean b => "boolean `" ++ (if b then "true" else "false") ++ "`"
  | .integer i => "integer `" ++ toString i ++ "`"
  | .floating text => "floating point `" ++ text ++ "`"
  | .string s => "string " ++ Text.quoted s
  | .sequence => "sequence"
  | .map => "map"

/-- What was wanted, in words. -/
def Expected.describe : Expected → String
  | .map => "a map"
  | .sequence => "a sequence"
  | .string => "a string"
  | .option => "option"
  | .settings => "struct Options"
  | .source => "pathMap option must be a string or object"
  | .inlineManifest => "a map of original path to replacement path, null or false"

/-- The mismatch in words. -/
def Mismatch.message : Mismatch → String
  | .shape found expected =>
    "invalid type: " ++ found.describe ++ ", expected " ++ expected.describe
  | .noSource => "missing field `pathMap`"
  | .scopeTwice => "duplicate field `search`"
  | .sourceTwice => "duplicate field `pathMap`"
  | .tooShort => "invalid length 1, expected struct Options with 2 elements"
  | .noReplacement => "data did not match any variant of untagged enum InlineValue"
  | .replacementIsTrue path =>
    "invalid replacement for " ++ Text.quoted path ++ ": expected a string, null or false"

end Relink
