import Mathlib.Data.List.Forall2
import Relink.Text.Blank

/-!
# Regular expressions

A path pattern is printed as a regular expression, and what is printed is to be read
by others. Here is as much of the usual syntax as patterns are printed in, with its
meaning: characters, escapes, classes of characters, the class of blanks, the two
repetitions `*` and `?`, and the two anchors.

Reading (`Regex.parse`) is strict. A character with a meaning of its own outside this
part of the syntax – a dot, a bar, a parenthesis – is refused and not taken
literally, and so is a repetition of a repetition; what is read therefore means the
same to every reader of the full syntax.

An expression matches a span of a text between what is before and what is after it
(`Regex.Matches`), since an anchor is about nothing else. A text is matched if some
span of it is (`Regex.IsMatch`): nothing but its own anchors ties an expression to
the whole text.
-/

namespace Relink

/-- A regular expression. -/
inductive Regex where
  /-- Nothing is left to match. -/
  | empty
  /-- The character itself. -/
  | literal (c : Char)
  /-- One of some characters. -/
  | oneOf (cs : List Char)
  /-- One blank. -/
  | blank
  /-- The beginning of the text. -/
  | atStart
  /-- The end of the text. -/
  | atEnd
  /-- One expression, then another. -/
  | sequence (e f : Regex)
  /-- Any number of times. -/
  | many (e : Regex)
  /-- Once or not at all. -/
  | optional (e : Regex)
deriving DecidableEq

namespace Regex

/-! ### Reading -/

/-- The characters that have a meaning of their own outside classes. -/
def isOperator (c : Char) : Bool :=
  ['\\', '.', '+', '*', '?', '(', ')', '|', '[', ']', '\x7b', '\x7d', '^', '$'].contains c

/-- The characters that have, or may have, a meaning of their own inside a class. -/
def isClassOperator (c : Char) : Bool := ['\\', '[', ']', '^', '-', '&', '~'].contains c

/-- The characters that a backslash makes literal: ASCII, but no letters, digits and
angle brackets. -/
def isEscapable (c : Char) : Bool :=
  c.toNat < 128 && !c.isAlphanum && c != '<' && c != '>'

/-- The expression is a repetition. -/
def isRepetition : Regex → Bool
  | .many _ => true
  | .optional _ => true
  | _ => false

/-- Where the reading of an expression is. -/
inductive ReadState where
  /-- Between two expressions. -/
  | plain
  /-- After a backslash. -/
  | escape
  /-- Inside a class with these members so far. -/
  | inClass (cs : List Char)
  /-- After a backslash inside a class. -/
  | classEscape (cs : List Char)

/-- Reads expressions that follow each other; `es` holds those read so far, the latest
first. A repetition takes hold of the latest. -/
def read : ReadState → List Regex → List Char → Option (List Regex)
  | .plain, es, [] => some es
  | _, _, [] => none
  | .plain, es, c :: cs =>
    -- the tests for operators come first, so a literal is what none of them claims
    if c = '^' then read .plain (.atStart :: es) cs
    else if c = '$' then read .plain (.atEnd :: es) cs
    else if c = '[' then read (.inClass []) es cs
    else if c = '\\' then read .escape es cs
    else if c = '*' ∨ c = '?' then
      match es with
      | [] => none
      | e :: es =>
        if e.isRepetition then none
        else read .plain ((if c = '*' then .many e else .optional e) :: es) cs
    else if isOperator c then none
    else read .plain (.literal c :: es) cs
  | .escape, es, c :: cs =>
    if c = 's' then read .plain (.blank :: es) cs
    else if isEscapable c then read .plain (.literal c :: es) cs
    else none
  | .inClass ds, es, c :: cs =>
    if c = ']' then if ds.isEmpty then none else read .plain (.oneOf ds :: es) cs
    else if c = '\\' then read (.classEscape ds) es cs
    -- ranges, negations and nested classes are not read
    else if isClassOperator c then none
    else read (.inClass (ds ++ [c])) es cs
  | .classEscape ds, es, c :: cs =>
    if isEscapable c then read (.inClass (ds ++ [c])) es cs else none

/-- Expressions, one after the other. -/
def sequenceAll (es : List Regex) : Regex := es.foldr .sequence .empty

/-- The expression that a text is, if it is one. -/
def parse (cs : List Char) : Option Regex :=
  (read .plain [] cs).map fun es => sequenceAll es.reverse

/-! ### Meaning -/

/-- **An expression matches a span** of a text, between what is before and what is
after it. -/
inductive Matches : Regex → List Char → List Char → List Char → Prop
  /-- Nothing is matched by no characters. -/
  | empty (u w : List Char) : Matches .empty u [] w
  /-- A character is matched by itself. -/
  | literal (c : Char) (u w : List Char) : Matches (.literal c) u [c] w
  /-- A class is matched by each of its members. -/
  | oneOf {c : Char} {cs : List Char} (u w : List Char) (h : c ∈ cs) :
      Matches (.oneOf cs) u [c] w
  /-- The class of blanks is matched by each blank. -/
  | blank {c : Char} (u w : List Char) (h : Text.isBlank c = true) : Matches .blank u [c] w
  /-- The beginning of the text has nothing before it. -/
  | atStart (w : List Char) : Matches .atStart [] [] w
  /-- The end of the text has nothing after it. -/
  | atEnd (u : List Char) : Matches .atEnd u [] []
  /-- Two spans that follow each other match one expression after the other. -/
  | sequence {e f : Regex} {u x y w : List Char} (hx : Matches e u x (y ++ w))
      (hy : Matches f (u ++ x) y w) : Matches (.sequence e f) u (x ++ y) w
  /-- A repetition may not happen. -/
  | manyNone (e : Regex) (u w : List Char) : Matches (.many e) u [] w
  /-- A repetition may happen once more. -/
  | manyMore {e : Regex} {u x y w : List Char} (hx : Matches e u x (y ++ w))
      (hy : Matches (.many e) (u ++ x) y w) : Matches (.many e) u (x ++ y) w
  /-- What is optional may be missing. -/
  | optionalNone (e : Regex) (u w : List Char) : Matches (.optional e) u [] w
  /-- What is optional may be there. -/
  | optionalSome {e : Regex} {u x w : List Char} (h : Matches e u x w) :
      Matches (.optional e) u x w

/-- **A text is matched** if one of its spans is. -/
def IsMatch (e : Regex) (text : List Char) : Prop :=
  ∃ u x w, text = u ++ x ++ w ∧ Matches e u x w

/-! ### What the forms of expressions match -/

variable {e f : Regex} {u x w : List Char}

theorem matches_empty_iff : Matches .empty u x w ↔ x = [] := by
  constructor
  · rintro ⟨⟩
    rfl
  · rintro rfl
    exact .empty u w

theorem matches_literal_iff {c : Char} : Matches (.literal c) u x w ↔ x = [c] := by
  constructor
  · rintro ⟨⟩
    rfl
  · rintro rfl
    exact .literal c u w

theorem matches_oneOf_iff {cs : List Char} :
    Matches (.oneOf cs) u x w ↔ ∃ c ∈ cs, x = [c] := by
  constructor
  · rintro ⟨⟩
    exact ⟨_, ‹_›, rfl⟩
  · rintro ⟨c, h, rfl⟩
    exact .oneOf u w h

theorem matches_atStart_iff : Matches .atStart u x w ↔ u = [] ∧ x = [] := by
  constructor
  · rintro ⟨⟩
    exact ⟨rfl, rfl⟩
  · rintro ⟨rfl, rfl⟩
    exact .atStart w

theorem matches_atEnd_iff : Matches .atEnd u x w ↔ x = [] ∧ w = [] := by
  constructor
  · rintro ⟨⟩
    exact ⟨rfl, rfl⟩
  · rintro ⟨rfl, rfl⟩
    exact .atEnd u

theorem matches_sequence_iff :
    Matches (.sequence e f) u x w ↔
      ∃ y z, x = y ++ z ∧ Matches e u y (z ++ w) ∧ Matches f (u ++ y) z w := by
  constructor
  · rintro ⟨⟩
    exact ⟨_, _, rfl, ‹_›, ‹_›⟩
  · rintro ⟨y, z, rfl, hy, hz⟩
    exact .sequence hy hz

theorem matches_optional_iff :
    Matches (.optional e) u x w ↔ x = [] ∨ Matches e u x w := by
  constructor
  · rintro ⟨⟩
    · exact Or.inl rfl
    · exact Or.inr ‹_›
  · rintro (rfl | h)
    · exact .optionalNone e u w
    · exact .optionalSome h

/-- Blanks, any number of times. -/
theorem matches_many_blank_iff :
    Matches (.many .blank) u x w ↔ ∀ c ∈ x, Text.isBlank c = true := by
  constructor
  · -- the induction is on the derivation, where the expression must be a variable
    generalize he : Regex.many .blank = e
    intro h
    induction h with
    | manyNone e u w => simp
    | manyMore hx _ _ ih =>
      cases he
      cases hx with
      | blank _ _ hb => simpa [hb] using ih rfl
    | _ => cases he
  · intro h
    induction x generalizing u with
    | nil => exact .manyNone _ u w
    | cons c x ih =>
      have hc : Text.isBlank c = true := h c List.mem_cons_self
      exact .manyMore (.blank u (x ++ w) hc) (ih fun d hd => h d (List.mem_cons_of_mem _ hd))

end Regex

end Relink
