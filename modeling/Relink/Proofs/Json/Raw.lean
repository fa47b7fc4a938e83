import Relink.Json.Skip
import Relink.Proofs.Json.Values

/-!
# JSON as it is written

Where a document holds more than is wanted, the reader only makes sure that it is JSON,
and less is asked of it: arrays and objects may be nested to any depth, a number may be
out of range, a text may hold half of a surrogate pair. What such bytes spell is a tree
again (`Relink.Json.Raw`), of what is written rather than of what it means: a number by its
digits, an object by its members one by one, a text that spells no characters only as
such.

The grammar (`Relink.Json.Spelled`) is the one of `Relink.Json.Value` without its limits. What
bytes spell is settled by the bytes (`Relink.Json.Spelled.unique`), as its first byte tells
what kind of value it is, and what follows tells where it ends.
-/

namespace Relink

namespace Json

/-- A JSON value as it is written. A text or a name is `none` if it is well formed but
spells no characters. -/
inductive Raw where
  /-- The null value. -/
  | null
  /-- A truth value. -/
  | boolean (b : Bool)
  /-- A number. -/
  | number (l : Literal)
  /-- A text. -/
  | string (s : Option String)
  /-- An array. -/
  | array (items : List Raw)
  /-- An object, its members as they are written. -/
  | object (members : List (Option String × Raw))

/-! ### Texts -/

/-- One part of a text, as it is spelled: a unit need not be a character. -/
inductive Mark : Bytes → Bytes → Prop
  /-- A byte that means itself. -/
  | plain {b : UInt8} {rest : Bytes} (quote : b ≠ byte '"') (backslash : b ≠ byte '\\')
      (control : ¬b < 0x20) : Mark (b :: rest) rest
  /-- A backslash with a letter or a mark. -/
  | escape {b : UInt8} {rest : Bytes} (h : (escaped? b).isSome) :
      Mark (byte '\\' :: b :: rest) rest
  /-- A unit. -/
  | unit {bs rest : Bytes} {u : Nat} (h : UnitEscape bs u rest) : Mark bs rest

/-- The parts of a text up to its closing quote. -/
inductive Marks : Bytes → Bytes → Prop
  /-- The text ends. -/
  | close (rest : Bytes) : Marks (byte '"' :: rest) rest
  /-- There is one more. -/
  | cons {bs mid rest : Bytes} (h : Mark bs mid) : Marks mid rest → Marks bs rest

/-- A text from behind its opening quote, with its characters if it spells any. -/
inductive RawText (bs : Bytes) : Option String → Bytes → Prop
  /-- It spells characters. -/
  | known {s : String} {rest : Bytes} (h : TextRest bs s rest) : RawText bs (some s) rest
  /-- It is well formed only. -/
  | unknown {rest : Bytes} (h : Marks bs rest) (spells : ∀ s rest, ¬TextRest bs s rest) :
      RawText bs none rest

section Texts

variable {bs mid rest rest' : Bytes}

theorem Piece.marks {out : Bytes} (h : Piece bs out mid) (hm : Marks mid rest) :
    Marks bs rest := by
  cases h with
  | plain quote backslash control => exact .cons (.plain quote backslash control) hm
  | escape h => exact .cons (.escape (by simp [h])) hm
  | unit h _ _ => exact .cons (.unit h) hm
  | pair h h' _ _ => exact .cons (.unit h) (.cons (.unit h') hm)

theorem Pieces.marks {content : Bytes} (h : Pieces bs content rest) : Marks bs rest := by
  induction h with
  | close rest => exact .close rest
  | cons h _ ih => exact h.marks ih

theorem RawText.marks {s : Option String} (h : RawText bs s rest) : Marks bs rest := by
  cases h with
  | known h => exact Pieces.marks h
  | unknown h _ => exact h

/-- Every well-formed text is known or unknown. -/
theorem Marks.exists_rawText (h : Marks bs rest) : ∃ s rest, RawText bs s rest := by
  by_cases hs : ∃ s rest, TextRest bs s rest
  · obtain ⟨s, rest, hs⟩ := hs
    exact ⟨some s, rest, .known hs⟩
  · exact ⟨none, rest, .unknown h fun s rest hr => hs ⟨s, rest, hr⟩⟩

theorem rawText_some_iff {s : String} : RawText bs (some s) rest ↔ TextRest bs s rest :=
  ⟨fun h => by cases h with | known h => exact h, .known⟩

/-- What has been read of a text in each state, from its backslash on. -/
def SkipState.seen : SkipState → Bytes
  | .plain => []
  | .escape => [byte '\\']
  | .unit digits => byte '\\' :: byte 'u' :: digits

/-- A unit is looked at when it has four digits. -/
def SkipState.IsOpen : SkipState → Prop
  | .unit digits => digits.length < 4
  | _ => True

theorem skipText_backslash (bs : Bytes) :
    skipText .plain (byte '\\' :: bs) = skipText .escape bs := by
  have hq : byte '\\' ≠ byte '"' := by decide
  rw [skipText, if_neg hq, if_pos rfl]

theorem Mark.skipText_eq (h : Mark bs mid) : skipText .plain bs = skipText .plain mid := by
  cases h with
  | plain quote backslash control => rw [skipText, if_neg quote, if_neg backslash, if_neg control]
  | @escape b _ h =>
    have hu : b ≠ byte 'u' := by
      rintro rfl
      cases h
    rw [skipText_backslash, skipText, if_neg hu, if_pos h]
  | unit h =>
    obtain ⟨hv⟩ := h
    rw [skipText_backslash, skipText, if_pos rfl]
    simp [skipText, hv]

theorem marks_of_skipText (state : SkipState) (ho : state.IsOpen)
    (h : skipText state bs = .ok rest) : Marks (state.seen ++ bs) rest := by
  induction bs generalizing state with
  | nil => cases state <;> cases h
  | cons b bs ih =>
    cases state with
    | plain =>
      by_cases hq : b = byte '"'
      · rw [skipText, if_pos hq] at h
        cases h
        rw [hq]
        exact .close rest
      by_cases hb : b = byte '\\'
      · subst hb
        rw [skipText_backslash] at h
        exact ih .escape trivial h
      by_cases hc : b < 0x20
      · rw [skipText, if_neg hq, if_neg hb, if_pos hc] at h
        cases h
      · rw [skipText, if_neg hq, if_neg hb, if_neg hc] at h
        exact .cons (.plain hq hb hc) (ih .plain trivial h)
    | escape =>
      by_cases hu : b = byte 'u'
      · subst hu
        rw [skipText, if_pos rfl] at h
        exact ih (.unit []) (Nat.zero_lt_succ _) h
      by_cases he : (escaped? b).isSome
      · rw [skipText, if_neg hu, if_pos he] at h
        exact .cons (.escape he) (ih .plain trivial h)
      · rw [skipText, if_neg hu, if_neg he] at h
        cases h
    | unit digits =>
      by_cases hd : digits.length < 3
      · rw [skipText, if_pos hd] at h
        have ho' : (SkipState.unit (digits ++ [b])).IsOpen := by
          simp only [SkipState.IsOpen, List.length_append, List.length_singleton]
          omega
        simpa [SkipState.seen] using ih _ ho' h
      · -- this is the last one of four digits
        rw [skipText, if_neg hd] at h
        have hl : digits.length < 4 := ho
        obtain ⟨x, y, z, rfl⟩ : ∃ x y z, digits = [x, y, z] :=
          List.length_eq_three.1 (by omega)
        split at h
        · next hv =>
          obtain ⟨u, hu⟩ := Option.isSome_iff_exists.1 hv
          exact .cons (.unit (.mk hu)) (ih .plain trivial h)
        · cases h

/-- **A text is passed over exactly if it is well formed.** -/
theorem skipText_eq_ok_iff : skipText .plain bs = .ok rest ↔ Marks bs rest := by
  constructor
  · exact marks_of_skipText .plain trivial
  · intro h
    induction h with
    | close rest => rw [skipText, if_pos rfl]
    | cons h _ ih => rw [h.skipText_eq, ih]

theorem Marks.unique (h : Marks bs rest) (h' : Marks bs rest') : rest = rest' := by
  rw [← skipText_eq_ok_iff] at h h'
  exact Except.ok.inj (h.symm.trans h')

theorem RawText.unique {s s' : Option String} (h : RawText bs s rest) (h' : RawText bs s' rest') :
    s = s' ∧ rest = rest' := by
  refine ⟨?_, h.marks.unique h'.marks⟩
  cases h with
  | unknown _ spells =>
    cases h' with
    | unknown => rfl
    | known h' => exact absurd h' (spells _ _)
  | known h =>
    cases h' with
    | unknown _ spells => exact absurd h (spells _ _)
    | known h' =>
      rw [← readText_eq_ok_iff] at h h'
      rw [(Prod.mk.inj (Except.ok.inj (h.symm.trans h'))).1]

theorem Marks.length_lt (h : Marks bs rest) : rest.length < bs.length := by
  induction h with
  | close rest => exact Nat.lt_succ_self _
  | cons h _ ih =>
    refine Nat.lt_trans ih ?_
    cases h with
    | plain => simp
    | escape => simp only [List.length_cons]; omega
    | unit h => exact h.length_lt

end Texts

/-! ### Values -/

/-- A name with its value, as it is written. -/
inductive RawMember (value : Bytes → Raw → Bytes → Prop) :
    Bytes → Option String × Raw → Bytes → Prop
  /-- A text, a colon and the value. -/
  | mk {bs a b c rest : Bytes} {name : Option String} {v : Raw} (text : RawText bs name a)
      (colon : Blanks a (byte ':' :: b)) (blanks : Blanks b c) (h : value c v rest) :
      RawMember value (byte '"' :: bs) (name, v) rest

/-- What bytes spell, when it is known what is spelled inside of brackets. -/
def Spells (inside : Bytes → Raw → Bytes → Prop) (bs : Bytes) (v : Raw) (rest : Bytes) : Prop :=
  match v with
  | .null => bs = byte 'n' :: byte 'u' :: byte 'l' :: byte 'l' :: rest
  | .boolean true => bs = byte 't' :: byte 'r' :: byte 'u' :: byte 'e' :: rest
  | .boolean false => bs = byte 'f' :: byte 'a' :: byte 'l' :: byte 's' :: byte 'e' :: rest
  | .number l => Written bs l rest
  | .string s => ∃ t, bs = byte '"' :: t ∧ RawText t s rest
  | .array items =>
    ∃ inner, bs = byte '[' :: inner ∧ Series (byte ']') inside true inner items rest
  | .object members =>
    ∃ inner, bs = byte '\x7b' :: inner ∧
      Series (byte '\x7d') (RawMember inside) true inner members rest

/-- What bytes spell, with at most so many brackets around anything. -/
def SpelledTo : Nat → Bytes → Raw → Bytes → Prop
  | 0 => Spells fun _ _ _ => False
  | depth + 1 => Spells (SpelledTo depth)

/-- **What bytes spell**, up to the bytes that follow. -/
def Spelled (bs : Bytes) (v : Raw) (rest : Bytes) : Prop := ∃ depth, SpelledTo depth bs v rest

/-- A document that is this value, with nothing but blanks around it. -/
def Raw.Document (v : Raw) (bs : Bytes) : Prop :=
  ∃ mid rest, Blanks bs mid ∧ Spelled mid v rest ∧ Blanks rest []

section Depth

variable {α : Type} {close : UInt8} {first : Bool} {bs rest : Bytes} {as : List α}
  {inside inside' : Bytes → Raw → Bytes → Prop} {v : Raw} {m : Option String × Raw}

theorem Series.imp {item item' : Bytes → α → Bytes → Prop}
    (hitem : ∀ {bs a rest}, item bs a rest → item' bs a rest)
    (h : Series close item first bs as rest) : Series close item' first bs as rest := by
  induction h with
  | close h => exact .close h
  | item opens h _ ih => exact .item opens (hitem h) ih

theorem RawMember.imp (hinside : ∀ {bs v rest}, inside bs v rest → inside' bs v rest)
    (h : RawMember inside bs m rest) : RawMember inside' bs m rest := by
  obtain ⟨text, colon, blanks, h⟩ := h
  exact .mk text colon blanks (hinside h)

theorem Spells.imp (hinside : ∀ {bs v rest}, inside bs v rest → inside' bs v rest)
    (h : Spells inside bs v rest) : Spells inside' bs v rest := by
  rcases v with _ | (_ | _) | _ | _ | items | members
  case array =>
    obtain ⟨inner, rfl, h⟩ := h
    exact ⟨inner, rfl, h.imp hinside⟩
  case object =>
    obtain ⟨inner, rfl, h⟩ := h
    exact ⟨inner, rfl, h.imp (.imp hinside)⟩
  all_goals exact h

theorem SpelledTo.mono {d e : Nat} (hde : d ≤ e) (h : SpelledTo d bs v rest) :
    SpelledTo e bs v rest := by
  induction d generalizing e bs v rest with
  | zero =>
    cases e with
    | zero => exact h
    | succ e => exact Spells.imp False.elim h
  | succ d ih =>
    obtain ⟨e, rfl⟩ := Nat.exists_eq_add_one_of_ne_zero (Nat.ne_of_gt (Nat.zero_lt_of_lt hde))
    exact Spells.imp (ih (Nat.le_of_succ_le_succ hde)) h

/-- Items of some depth each are all of one depth. -/
theorem Series.exists_depth {item : Nat → Bytes → α → Bytes → Prop}
    (hmono : ∀ {d e bs a rest}, d ≤ e → item d bs a rest → item e bs a rest)
    (h : Series close (fun bs a rest => ∃ d, item d bs a rest) first bs as rest) :
    ∃ d, Series close (item d) first bs as rest := by
  induction h with
  | close h => exact ⟨0, .close h⟩
  | item opens h _ ih =>
    obtain ⟨d, h⟩ := h
    obtain ⟨e, ih⟩ := ih
    exact ⟨max d e, .item opens (hmono (Nat.le_max_left d e) h)
      (ih.imp (hmono (Nat.le_max_right d e)))⟩

theorem RawMember.exists_depth (h : RawMember Spelled bs m rest) :
    ∃ depth, RawMember (SpelledTo depth) bs m rest := by
  obtain ⟨text, colon, blanks, depth, h⟩ := h
  exact ⟨depth, .mk text colon blanks h⟩

/-- **Inside of brackets the same is spelled as outside.** -/
theorem spelled_iff : Spelled bs v rest ↔ Spells Spelled bs v rest := by
  constructor
  · rintro ⟨_ | depth, h⟩
    · exact Spells.imp False.elim h
    · exact Spells.imp (fun h => ⟨depth, h⟩) h
  · intro h
    rcases v with _ | (_ | _) | _ | _ | items | members
    case array =>
      obtain ⟨inner, rfl, h⟩ := h
      obtain ⟨depth, h⟩ : ∃ d, Series (byte ']') (SpelledTo d) true inner items rest :=
        h.exists_depth .mono
      exact ⟨depth + 1, inner, rfl, h⟩
    case object =>
      obtain ⟨inner, rfl, h⟩ := h
      obtain ⟨depth, h⟩ :
          ∃ d, Series (byte '\x7d') (RawMember (SpelledTo d)) true inner members rest :=
        (h.imp RawMember.exists_depth).exists_depth fun hde => .imp (.mono hde)
      exact ⟨depth + 1, inner, rfl, h⟩
    all_goals exact ⟨0, h⟩

end Depth

/-! ### What the first byte tells -/

/-- The kinds of values that begin differently. -/
inductive Kind where
  /-- The null value. -/
  | null
  /-- A truth value. -/
  | boolean (b : Bool)
  /-- A number. -/
  | number
  /-- A text. -/
  | string
  /-- An array. -/
  | array
  /-- An object. -/
  | object
deriving DecidableEq

/-- The kind of a value. -/
def Raw.kind : Raw → Kind
  | .null => .null
  | .boolean b => .boolean b
  | .number _ => .number
  | .string _ => .string
  | .array _ => .array
  | .object _ => .object

/-- The kind of the values that begin with a byte. -/
def kind? (b : UInt8) : Option Kind :=
  if b = byte '-' ∨ (digit? b).isSome then some .number
  else match Char.ofUInt8 b with
    | 'n' => some .null
    | 't' => some (.boolean true)
    | 'f' => some (.boolean false)
    | '"' => some .string
    | '[' => some .array
    | '\x7b' => some .object
    | _ => none

section First

variable {inside : Bytes → Raw → Bytes → Prop} {bs rest : Bytes} {v : Raw}

/-- **The first byte tells the kind of a value.** -/
theorem Spells.head (h : Spells inside bs v rest) : ∃ b t, bs = b :: t ∧ kind? b = some v.kind := by
  rcases v with _ | (_ | _) | l | s | items | members
  case number =>
    obtain ⟨b, t, rfl, hb⟩ := Written.head h
    exact ⟨b, t, rfl, if_pos hb⟩
  case string | array | object =>
    obtain ⟨t, rfl, -⟩ := h
    exact ⟨_, t, rfl, rfl⟩
  all_goals
    obtain rfl := h
    exact ⟨_, _, rfl, rfl⟩

theorem begins_of_kind? {b : UInt8} {k : Kind} (h : kind? b = some k) (bs : Bytes) :
    Begins (b :: bs) := by
  have hblank : isBlank b = true → b = 0x20 ∨ b = 0x09 ∨ b = 0x0A ∨ b = 0x0D := by
    simp [isBlank, or_assoc]
  refine ⟨b, bs, rfl, ?_, ?_, ?_⟩
  · rw [Bool.eq_false_iff]
    intro hb
    rcases hblank hb with rfl | rfl | rfl | rfl <;> cases h
  · rintro rfl
    cases h
  · rintro rfl
    cases h

theorem Spells.begins (h : Spells inside bs v rest) : Begins bs := by
  obtain ⟨b, t, rfl, hb⟩ := h.head
  exact begins_of_kind? hb t

theorem Spelled.begins (h : Spelled bs v rest) : Begins bs := (spelled_iff.1 h).begins

end First

/-! ### What bytes settle -/

section Unique

variable {α : Type} {close : UInt8} {first : Bool} {bs rest rest' : Bytes}

/-- The bytes settle which item comes first, and where it ends. -/
structure IsSettled (item : Bytes → α → Bytes → Prop) : Prop where
  /-- There is but one item, if what comes behind it may follow a value. -/
  unique : ∀ {bs a a' rest rest'}, item bs a rest → item bs a' rest' → Follows rest →
    Follows rest' → a = a' ∧ rest = rest'

theorem Opens.unique {b b' : UInt8} {t t' : Bytes} (h : Opens first bs (b :: t))
    (h' : Opens first bs (b' :: t')) (hb : isBlank b = false) (hb' : isBlank b' = false) :
    b :: t = b' :: t' := by
  cases first with
  | true => exact ((opens_true_iff hb).1 h).symm.trans ((opens_true_iff hb').1 h')
  | false =>
    obtain ⟨mid, hmid, h⟩ := (opens_false_iff hb).1 h
    obtain ⟨mid', hmid', h'⟩ := (opens_false_iff hb').1 h'
    obtain rfl := (List.cons.inj (hmid.symm.trans hmid')).2
    exact h.symm.trans h'

/-- The first byte that is no blank tells whether there is another item. -/
theorem Opens.not_close {b : UInt8} {t : Bytes} (h : Opens first bs (b :: t))
    (hb : isBlank b = false) (hne : b ≠ close) (hclose : close = byte ']' ∨ close = byte '\x7d') :
    ¬Blanks bs (close :: rest) := by
  intro hc
  have hmark : isBlank close = false ∧ close ≠ byte ',' := by
    rcases hclose with rfl | rfl <;> decide
  have hs := skipBlanks_eq_cons_iff.2 ⟨hc, hmark.1⟩
  cases first with
  | true => exact hne (List.cons.inj (((opens_true_iff hb).1 h).symm.trans hs)).1
  | false =>
    obtain ⟨mid, hmid, -⟩ := (opens_false_iff hb).1 h
    exact hmark.2 (List.cons.inj (hs.symm.trans hmid)).1

theorem Series.unique {item : Bytes → α → Bytes → Prop} (hitem : IsSettled item)
    (hbegins : ∀ {bs a rest}, item bs a rest → ∃ b t, bs = b :: t ∧ isBlank b = false ∧ b ≠ close)
    (hclose : close = byte ']' ∨ close = byte '\x7d') {as as' : List α}
    (h : Series close item first bs as rest) (h' : Series close item first bs as' rest') :
    as = as' ∧ rest = rest' := by
  induction h generalizing as' with
  | close h =>
    cases h' with
    | close h' =>
      have hblank : isBlank close = false := by rcases hclose with rfl | rfl <;> decide
      have hs := skipBlanks_eq_cons_iff.2 ⟨h, hblank⟩
      have hs' := skipBlanks_eq_cons_iff.2 ⟨h', hblank⟩
      exact ⟨rfl, (List.cons.inj (hs.symm.trans hs')).2⟩
    | item opens h' _ =>
      obtain ⟨b, t, rfl, hb, hne⟩ := hbegins h'
      exact absurd h (opens.not_close hb hne hclose)
  | item opens h htail ih =>
    obtain ⟨b, t, rfl, hb, hne⟩ := hbegins h
    cases h' with
    | close h' => exact absurd h' (opens.not_close hb hne hclose)
    | item opens' h' htail' =>
      obtain ⟨b', t', rfl, hb', -⟩ := hbegins h'
      rw [← opens.unique opens' hb hb'] at h'
      obtain ⟨rfl, rfl⟩ := hitem.unique h h' (htail.follows hclose) (htail'.follows hclose)
      obtain ⟨rfl, rfl⟩ := ih htail'
      exact ⟨rfl, rfl⟩

variable {inside : Bytes → Raw → Bytes → Prop}

theorem RawMember.begins {m : Option String × Raw} (h : RawMember inside bs m rest) :
    ∃ b t, bs = b :: t ∧ isBlank b = false ∧ b ≠ byte '\x7d' := by
  obtain ⟨-, -, -, -⟩ := h
  exact ⟨_, _, rfl, by decide, by decide⟩

theorem isSettled_rawMember (hinside : IsSettled inside)
    (hbegins : ∀ {bs v rest}, inside bs v rest → Begins bs) : IsSettled (RawMember inside) := by
  refine ⟨fun {bs m m' rest rest'} h h' hf hf' => ?_⟩
  obtain ⟨text, colon, blanks, h⟩ := h
  cases h' with
  | mk text' colon' blanks' h' =>
    obtain ⟨rfl, rfl⟩ := text.unique text'
    have hs := skipBlanks_eq_cons_iff.2 ⟨colon, by decide⟩
    have hs' := skipBlanks_eq_cons_iff.2 ⟨colon', by decide⟩
    obtain rfl := (List.cons.inj (hs.symm.trans hs')).2
    have hvalue := (hbegins h).skipBlanks_eq.symm.trans blanks.skipBlanks_eq.symm
    have hvalue' := (hbegins h').skipBlanks_eq.symm.trans blanks'.skipBlanks_eq.symm
    obtain rfl := hvalue.trans hvalue'.symm
    obtain ⟨rfl, rfl⟩ := hinside.unique h h' hf hf'
    exact ⟨rfl, rfl⟩

theorem isSettled_spells (hinside : IsSettled inside)
    (hbegins : ∀ {bs v rest}, inside bs v rest → Begins bs) : IsSettled (Spells inside) := by
  refine ⟨fun {bs v v' rest rest'} h h' hf hf' => ?_⟩
  have hkind : v.kind = v'.kind := by
    obtain ⟨b, t, rfl, hb⟩ := h.head
    obtain ⟨b', t', hbt, hb'⟩ := h'.head
    obtain rfl := (List.cons.inj hbt).1
    exact Option.some.inj (hb.symm.trans hb')
  rcases v with _ | (_ | _) | l | s | items | members <;>
    rcases v' with _ | (_ | _) | l' | s' | items' | members' <;> cases hkind
  case number =>
    have hl := Written.readLiteral_eq h hf
    have hl' := Written.readLiteral_eq h' hf'
    obtain ⟨rfl, rfl⟩ := Prod.mk.inj (Except.ok.inj (hl.symm.trans hl'))
    exact ⟨rfl, rfl⟩
  case string =>
    obtain ⟨t, rfl, h⟩ := h
    obtain ⟨t', ht, h'⟩ := h'
    obtain rfl := (List.cons.inj ht).2
    obtain ⟨rfl, rfl⟩ := h.unique h'
    exact ⟨rfl, rfl⟩
  case array =>
    obtain ⟨t, rfl, h⟩ := h
    obtain ⟨t', ht, h'⟩ := h'
    obtain rfl := (List.cons.inj ht).2
    have hopens {bs v rest} (hi : inside bs v rest) :
        ∃ b t, bs = b :: t ∧ isBlank b = false ∧ b ≠ byte ']' := by
      obtain ⟨b, t, hbs, hb, hne, -⟩ := hbegins hi
      exact ⟨b, t, hbs, hb, hne⟩
    obtain ⟨rfl, rfl⟩ := h.unique hinside hopens (.inl rfl) h'
    exact ⟨rfl, rfl⟩
  case object =>
    obtain ⟨t, rfl, h⟩ := h
    obtain ⟨t', ht, h'⟩ := h'
    obtain rfl := (List.cons.inj ht).2
    obtain ⟨rfl, rfl⟩ := h.unique (isSettled_rawMember hinside hbegins) RawMember.begins
      (.inr rfl) h'
    exact ⟨rfl, rfl⟩
  all_goals
    obtain rfl := h
    simp only [Spells, List.cons.injEq, true_and] at h'
    exact ⟨rfl, h'⟩

theorem isSettled_spelledTo (depth : Nat) : IsSettled (SpelledTo depth) := by
  induction depth with
  | zero => exact isSettled_spells ⟨False.elim⟩ False.elim
  | succ depth ih => exact isSettled_spells ih fun h => Spelled.begins ⟨depth, h⟩

/-- **What bytes spell is settled by the bytes.** -/
theorem isSettled_spelled : IsSettled Spelled := by
  refine ⟨fun ⟨d, h⟩ ⟨e, h'⟩ hf hf' => ?_⟩
  exact (isSettled_spelledTo (max d e)).unique (h.mono (Nat.le_max_left d e))
    (h'.mono (Nat.le_max_right d e)) hf hf'

/-- **A document is one value only.** -/
theorem Raw.Document.unique {v v' : Raw} (h : v.Document bs) (h' : v'.Document bs) : v = v' := by
  obtain ⟨mid, rest, hmid, h, hrest⟩ := h
  obtain ⟨mid', rest', hmid', h', hrest'⟩ := h'
  have hs := h.begins.skipBlanks_eq.symm.trans hmid.skipBlanks_eq.symm
  have hs' := h'.begins.skipBlanks_eq.symm.trans hmid'.skipBlanks_eq.symm
  obtain rfl := hs.trans hs'.symm
  have hnil : Follows [] := by simp [Follows]
  exact (isSettled_spelled.unique h h' (hrest.follows hnil) (hrest'.follows hnil)).1

end Unique

/-! ### Lengths -/

section Lengths

variable {inside : Bytes → Raw → Bytes → Prop} {bs rest : Bytes} {v : Raw}
  {m : Option String × Raw}

theorem RawMember.length_lt
    (hinside : ∀ {bs v rest}, inside bs v rest → rest.length < bs.length)
    (h : RawMember inside bs m rest) : rest.length < bs.length := by
  obtain ⟨text, colon, blanks, h⟩ := h
  have := text.marks.length_lt
  have := colon.length_le
  have := blanks.length_le
  have := hinside h
  simp only [List.length_cons] at *
  omega

theorem Spells.length_lt
    (hinside : ∀ {bs v rest}, inside bs v rest → rest.length < bs.length)
    (h : Spells inside bs v rest) : rest.length < bs.length := by
  rcases v with _ | (_ | _) | l | s | items | members
  case number => exact Written.length_lt h
  case string =>
    obtain ⟨t, rfl, h⟩ := h
    exact Nat.lt_succ_of_lt h.marks.length_lt
  case array =>
    obtain ⟨t, rfl, h⟩ := h
    have := h.length_lt hinside
    rw [List.length_cons]
    omega
  case object =>
    obtain ⟨t, rfl, h⟩ := h
    have := h.length_lt (RawMember.length_lt hinside)
    rw [List.length_cons]
    omega
  all_goals
    obtain rfl := h
    simp only [List.length_cons]
    omega

theorem Spelled.length_lt (h : Spelled bs v rest) : rest.length < bs.length := by
  obtain ⟨depth, h⟩ := h
  induction depth generalizing bs v rest with
  | zero => exact Spells.length_lt False.elim h
  | succ depth ih => exact Spells.length_lt ih h

end Lengths

end Json

end Relink
