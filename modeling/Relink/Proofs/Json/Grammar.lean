import Mathlib.Data.List.Basic
import Mathlib.Data.List.Induction
import Relink.Json.Reader
import Relink.Scope

/-!
# The grammar of JSON

What it is for bytes to be JSON, said without reading them. Each form is a relation
between the bytes that it begins with, what it means, and the bytes that follow it:
blanks (`Relink.Json.Blanks`), texts (`Relink.Json.TextRest`), numbers
(`Relink.Json.Written`), scalars (`Relink.Json.Scalar`), and values
(`Relink.Json.Value`), in which as many arrays and objects may be open inside each
other as their first argument says.

A value means its members one by one, as they are written, a name that comes twice
with both of its values. What becomes of such names is not a question of grammar; it
is settled afterwards (`Relink.Json.settle`), and there is one rule for all depths:
a name stands where it came first, with the value it had last.

The grammar does not say where a number ends. `1` followed by `2` is a number with a
digit behind it, and a number of two digits as well. Inside a document there is no
such choice, since a value is followed by nothing but what `Relink.Json.Follows`
allows.
-/

namespace Relink

namespace Json

/-! ### Blanks -/

/-- Blanks, perhaps none at all. -/
inductive Blanks : Bytes → Bytes → Prop
  /-- There is none. -/
  | none (bs : Bytes) : Blanks bs bs
  /-- There is one more. -/
  | cons {b : UInt8} {bs rest : Bytes} (h : isBlank b = true) :
      Blanks bs rest → Blanks (b :: bs) rest

/-! ### Texts -/

/-- An escape of a unit: a backslash, a `u` and four digits. -/
inductive UnitEscape : Bytes → Nat → Bytes → Prop
  /-- The digits have the value of the unit. -/
  | mk {a b c d : UInt8} {u : Nat} {rest : Bytes} (h : hexValue? 0 [a, b, c, d] = some u) :
      UnitEscape (byte '\\' :: byte 'u' :: a :: b :: c :: d :: rest) u rest

/-- One character of a text, as it is spelled, with the bytes that are meant. -/
inductive Piece : Bytes → Bytes → Bytes → Prop
  /-- A byte that means itself. -/
  | plain {b : UInt8} {rest : Bytes} (quote : b ≠ byte '"') (backslash : b ≠ byte '\\')
      (control : ¬b < 0x20) : Piece (b :: rest) [b] rest
  /-- A backslash with a letter or a mark. -/
  | escape {b e : UInt8} {rest : Bytes} (h : escaped? b = some e) :
      Piece (byte '\\' :: b :: rest) [e] rest
  /-- A unit that is a code point. -/
  | unit {bs rest : Bytes} {u : Nat} (h : UnitEscape bs u rest) (lead : isLead u = false)
      (trail : isTrail u = false) : Piece bs (String.utf8EncodeChar (Char.ofNat u)) rest
  /-- Two units that are a surrogate pair. -/
  | pair {bs mid rest : Bytes} {u v : Nat} (h : UnitEscape bs u mid) (h' : UnitEscape mid v rest)
      (lead : isLead u = true) (trail : isTrail v = true) :
      Piece bs (String.utf8EncodeChar (Char.ofNat (pairValue u v))) rest

/-- The characters of a text up to its closing quote, with the bytes that are meant. -/
inductive Pieces : Bytes → Bytes → Bytes → Prop
  /-- The text ends. -/
  | close (rest : Bytes) : Pieces (byte '"' :: rest) [] rest
  /-- There is one more. -/
  | cons {bs mid rest out content : Bytes} (h : Piece bs out mid) :
      Pieces mid content rest → Pieces bs (out ++ content) rest

/-- A text, from behind its opening quote. -/
def TextRest (bs : Bytes) (s : String) (rest : Bytes) : Prop := Pieces bs (Text.encode s) rest

/-! ### Numbers -/

/-- Digits, perhaps none at all. -/
inductive Digits : Bytes → List Nat → Bytes → Prop
  /-- There is none. -/
  | none (bs : Bytes) : Digits bs [] bs
  /-- There is one more. -/
  | cons {b : UInt8} {d : Nat} {bs rest : Bytes} {ds : List Nat} (h : digit? b = some d) :
      Digits bs ds rest → Digits (b :: bs) (d :: ds) rest

/-- A minus sign, or nothing. -/
inductive Minus : Bytes → Bool → Bytes → Prop
  /-- There is none. -/
  | none (bs : Bytes) : Minus bs false bs
  /-- There is one. -/
  | some (bs : Bytes) : Minus (byte '-' :: bs) true bs

/-- The digits before the point: at least one, and no zero before another one. -/
def Whole (bs : Bytes) (ds : List Nat) (rest : Bytes) : Prop :=
  Digits bs ds rest ∧ ds ≠ [] ∧ (ds.head? = some 0 → ds = [0])

/-- A point with digits, or nothing. -/
inductive Fraction : Bytes → Option (List Nat) → Bytes → Prop
  /-- There is none. -/
  | none (bs : Bytes) : Fraction bs none bs
  /-- There is one, and at least one digit. -/
  | some {bs rest : Bytes} {ds : List Nat} (h : Digits bs ds rest) (ne : ds ≠ []) :
      Fraction (byte '.' :: bs) (some ds) rest

/-- The sign of an exponent: a minus, a plus, or nothing. -/
inductive ExponentSign : Bytes → Bool → Bytes → Prop
  /-- There is none. -/
  | none (bs : Bytes) : ExponentSign bs false bs
  /-- There is a plus. -/
  | plus (bs : Bytes) : ExponentSign (byte '+' :: bs) false bs
  /-- There is a minus. -/
  | minus (bs : Bytes) : ExponentSign (byte '-' :: bs) true bs

/-- An exponent, or nothing. -/
inductive Exponent : Bytes → Option (Bool × List Nat) → Bytes → Prop
  /-- There is none. -/
  | none (bs : Bytes) : Exponent bs none bs
  /-- There is one, and at least one digit. -/
  | some {e : UInt8} {bs mid rest : Bytes} {down : Bool} {ds : List Nat}
      (letter : e = byte 'e' ∨ e = byte 'E') (sign : ExponentSign bs down mid)
      (h : Digits mid ds rest) (ne : ds ≠ []) : Exponent (e :: bs) (some (down, ds)) rest

/-- A number as it is written. -/
inductive Written : Bytes → Literal → Bytes → Prop
  /-- Its parts in order. -/
  | mk {a b c d rest : Bytes} {l : Literal} (minus : Minus a l.negative b)
      (whole : Whole b l.whole c) (fraction : Fraction c l.fraction d)
      (exponent : Exponent d l.exponent rest) : Written a l rest

/-! ### Scalars -/

/-- A value that is neither an array nor an object. A number has to be in range. -/
inductive Scalar : Bytes → Json → Bytes → Prop
  /-- The null value. -/
  | null (rest : Bytes) : Scalar (byte 'n' :: byte 'u' :: byte 'l' :: byte 'l' :: rest) .null rest
  /-- True. -/
  | yes (rest : Bytes) :
      Scalar (byte 't' :: byte 'r' :: byte 'u' :: byte 'e' :: rest) (.boolean true) rest
  /-- False. -/
  | no (rest : Bytes) :
      Scalar (byte 'f' :: byte 'a' :: byte 'l' :: byte 's' :: byte 'e' :: rest)
        (.boolean false) rest
  /-- A text. -/
  | string {bs rest : Bytes} {s : String} (h : TextRest bs s rest) :
      Scalar (byte '"' :: bs) (.string s) rest
  /-- A number. -/
  | number {bs rest : Bytes} {l : Literal} {n : Number} (h : Written bs l rest)
      (range : Number.ofLiteral? l = some n) : Scalar bs (.number n) rest

/-! ### Arrays and objects -/

/-- What stands before an item: blanks, and before all items but the first a comma. -/
def Opens : Bool → Bytes → Bytes → Prop
  | true, bs, rest => Blanks bs rest
  | false, bs, rest => ∃ mid, Blanks bs (byte ',' :: mid) ∧ Blanks mid rest

/-- Items up to the closing bracket, from behind the opening one or, if the first
argument of the relation itself is false, from behind an item. -/
inductive Series {α : Type} (close : UInt8) (item : Bytes → α → Bytes → Prop) :
    Bool → Bytes → List α → Bytes → Prop
  /-- There is no more item. -/
  | close {first : Bool} {bs rest : Bytes} (h : Blanks bs (close :: rest)) :
      Series close item first bs [] rest
  /-- There is one more. -/
  | item {first : Bool} {bs mid bs' rest : Bytes} {a : α} {as : List α}
      (opens : Opens first bs mid) (h : item mid a bs') :
      Series close item false bs' as rest → Series close item first bs (a :: as) rest

/-- A name with its value. -/
inductive Member (value : Bytes → Json → Bytes → Prop) : Bytes → String × Json → Bytes → Prop
  /-- A text, a colon and the value. -/
  | mk {bs a b c rest : Bytes} {name : String} {v : Json} (text : TextRest bs name a)
      (colon : Blanks a (byte ':' :: b)) (blanks : Blanks b c) (h : value c v rest) :
      Member value (byte '"' :: bs) (name, v) rest

/-- A value in which as many arrays and objects may be open inside each other as the
first argument says. -/
def Value : Nat → Bytes → Json → Bytes → Prop
  | 0, bs, v, rest => Scalar bs v rest
  | depth + 1, bs, v, rest =>
    Scalar bs v rest ∨
    (∃ inner items, bs = byte '[' :: inner ∧ v = .array items ∧
      Series (byte ']') (Value depth) true inner items rest) ∨
    (∃ inner members, bs = byte '\x7b' :: inner ∧ v = .object members ∧
      Series (byte '\x7d') (Member (Value depth)) true inner members rest)

/-- A document that is one object with the given members. -/
def ObjectDocument (members : List (String × Json)) (bs : Bytes) : Prop :=
  ∃ inner rest, Blanks bs (byte '\x7b' :: inner) ∧
    Series (byte '\x7d') (Member (Value (depthLimit - 1))) true inner members rest ∧
    Blanks rest []

/-! ### What may follow a value -/

/-- Bytes that may follow a value: a blank, a comma or a closing bracket, or nothing. -/
def Follows (bs : Bytes) : Prop :=
  ∀ b ∈ bs.head?, isBlank b = true ∨ b = byte ',' ∨ b = byte ']' ∨ b = byte '\x7d'

section Follows

variable {bs rest : Bytes} {b : UInt8}

theorem Blanks.follows (h : Blanks bs rest) (hrest : Follows rest) : Follows bs := by
  cases h with
  | none => exact hrest
  | cons hb _ =>
    intro c hc
    rw [List.head?_cons, Option.mem_some_iff] at hc
    exact .inl (hc ▸ hb)

theorem follows_cons (h : b = byte ',' ∨ b = byte ']' ∨ b = byte '\x7d') (bs : Bytes) :
    Follows (b :: bs) := by
  intro c hc
  rw [List.head?_cons, Option.mem_some_iff] at hc
  exact .inr (hc ▸ h)

theorem Series.follows {α : Type} {close : UInt8} {item : Bytes → α → Bytes → Prop}
    {as : List α} (hclose : close = byte ']' ∨ close = byte '\x7d')
    (h : Series close item false bs as rest) : Follows bs := by
  cases h with
  | close h => exact h.follows (follows_cons (.inr hclose) _)
  | item opens _ _ =>
    obtain ⟨mid, h, -⟩ := opens
    exact h.follows (follows_cons (.inl rfl) _)

/-- What may follow a value is no part of a number. -/
theorem Follows.not_number (h : Follows bs) (hb : b ∈ bs.head?) :
    digit? b = none ∧ b ≠ byte '.' ∧ b ≠ byte 'e' ∧ b ≠ byte 'E' := by
  have hblank : isBlank b = true → b = 0x20 ∨ b = 0x09 ∨ b = 0x0A ∨ b = 0x0D := by
    simp [isBlank, or_assoc]
  rcases h b hb with hs | rfl | rfl | rfl
  · rcases hblank hs with rfl | rfl | rfl | rfl <;> decide
  · decide
  · decide
  · decide

end Follows

/-! ### How a value begins -/

section Begins

variable {bs rest : Bytes}

/-- A byte that a value may begin with, and that nothing else can be taken for. -/
def Begins (bs : Bytes) : Prop :=
  ∃ b t, bs = b :: t ∧ isBlank b = false ∧ b ≠ byte ']' ∧ b ≠ byte '\x7d'

theorem begins_of_digit {b : UInt8} {d : Nat} (h : digit? b = some d) (bs : Bytes) :
    Begins (b :: bs) := by
  have hf : ¬Follows [b] := by
    intro hf
    rw [(hf.not_number (Option.mem_some_self b)).1] at h
    cases h
  refine ⟨b, bs, rfl, ?_, fun hb => hf (follows_cons (.inr (.inl hb)) []),
    fun hb => hf (follows_cons (.inr (.inr hb)) [])⟩
  rw [Bool.eq_false_iff]
  intro hb
  exact hf (Blanks.follows (.cons hb (.none [])) (by simp [Follows]))

theorem Written.begins {l : Literal} (h : Written bs l rest) : Begins bs := by
  obtain ⟨negative, ds, fraction, exponent⟩ := l
  obtain ⟨minus, ⟨digits, ne, -⟩, -, -⟩ := h
  cases minus with
  | some => exact ⟨_, _, rfl, by decide, by decide, by decide⟩
  | none =>
    cases digits with
    | none => exact absurd rfl ne
    | cons hd _ => exact begins_of_digit hd _

theorem Scalar.begins {v : Json} (h : Scalar bs v rest) : Begins bs := by
  cases h with
  | number h _ => exact h.begins
  | _ => exact ⟨_, _, rfl, by decide, by decide, by decide⟩

theorem Value.begins {depth : Nat} {v : Json} (h : Value depth bs v rest) : Begins bs := by
  cases depth with
  | zero => exact Scalar.begins h
  | succ depth =>
    rcases h with h | ⟨inner, items, rfl, -, -⟩ | ⟨inner, members, rfl, -, -⟩
    · exact h.begins
    · exact ⟨_, _, rfl, by decide, by decide, by decide⟩
    · exact ⟨_, _, rfl, by decide, by decide, by decide⟩

end Begins

/-! ### Names that come twice -/

end Json

namespace Entries

variable {α : Type}

/-- Pairs as entries: each key once, where it came first, with the value that it had
last. -/
def settle (ps : List (String × α)) : Entries α :=
  (distinct (keys ps)).filterMap fun k => (get? ps.reverse k).map (Prod.mk k)

theorem putAll_concat (es : Entries α) (ps : List (String × α)) (p : String × α) :
    putAll es (ps ++ [p]) = put (putAll es ps) p.1 p.2 := by
  simp [putAll]

theorem keys_putAll_nil (ps : List (String × α)) : keys (putAll [] ps) = distinct (keys ps) := by
  induction ps using List.reverseRecOn with
  | nil => rfl
  | append_singleton ps p ih =>
    rw [putAll_concat, keys_put, ih, keys_append, keys_cons, keys_nil, distinct_concat]
    simp only [mem_distinct]

theorem get?_putAll_nil (ps : List (String × α)) (k : String) :
    get? (putAll [] ps) k = get? ps.reverse k := by
  induction ps using List.reverseRecOn with
  | nil => rfl
  | append_singleton ps p ih =>
    rw [putAll_concat, get?_put, List.reverse_append, List.reverse_singleton,
      List.singleton_append, get?_cons, ih]

/-- Entries are made of their keys and their look-up. -/
theorem filterMap_get?_keys {es : Entries α} (hn : (keys es).Nodup) :
    (keys es).filterMap (fun k => (get? es k).map (Prod.mk k)) = es := by
  rw [keys, List.filterMap_map]
  have h : ∀ e ∈ es, ((fun k => (get? es k).map (Prod.mk k)) ∘ Prod.fst) e = some e := by
    intro e he
    simp [get?_of_mem hn he]
  rw [List.filterMap_congr h, List.filterMap_some]

/-- Pairs are settled by writing them one after the other. -/
theorem putAll_nil_eq_settle (ps : List (String × α)) : putAll [] ps = settle ps := by
  have hn : (keys (putAll [] ps)).Nodup := keys_putAll_nil ps ▸ nodup_distinct (keys ps)
  have h := filterMap_get?_keys hn
  rw [keys_putAll_nil] at h
  simp only [get?_putAll_nil] at h
  exact h.symm

theorem keys_settle (ps : List (String × α)) : keys (settle ps) = distinct (keys ps) := by
  rw [← putAll_nil_eq_settle, keys_putAll_nil]

theorem get?_settle (ps : List (String × α)) (k : String) :
    get? (settle ps) k = get? ps.reverse k := by
  rw [← putAll_nil_eq_settle, get?_putAll_nil]

end Entries

namespace Json

mutual

/-- A value with the members of its objects settled, at every depth. -/
def settle : Json → Json
  | .null => .null
  | .boolean b => .boolean b
  | .number n => .number n
  | .string s => .string s
  | .array items => .array (settleItems items)
  | .object members => .object (Entries.settle (settleMembers members))

/-- The same for the items of an array. -/
def settleItems : List Json → List Json
  | [] => []
  | v :: vs => settle v :: settleItems vs

/-- The same for the values of members. -/
def settleMembers : List (String × Json) → List (String × Json)
  | [] => []
  | (name, v) :: ms => (name, settle v) :: settleMembers ms

end

end Json

end Relink
