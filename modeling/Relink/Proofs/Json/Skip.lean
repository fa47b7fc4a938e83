import Relink.Proofs.Json.Raw

/-!
# Passing over values

A value that nobody asks for is passed over with a stack of open brackets, bracket by
bracket and scalar by scalar. What is left of a value where the reader stands can be said
from the stack (`Relink.Json.Closes`): the items or members that are missing of each bracket,
from the innermost one outwards. Every step keeps to it, and takes at least one byte.

So a value is passed over exactly if it is JSON, to whatever depth its brackets are nested.
-/

namespace Relink

namespace Json

/-! ### Scalars -/

section Scalars

variable {bs rest : Bytes} {v : Raw}

theorem exists_spelled_of_skipScalar (h : skipScalar bs = .ok rest) : ∃ v, Spelled bs v rest := by
  simp only [spelled_iff]
  rcases bs with _ | ⟨b, bs⟩
  · cases h
  have hb := byte_ofUInt8 b
  simp only [skipScalar] at h
  split at h
  · next hc =>
    rw [hc] at hb
    exact ⟨.null, by rw [readWord_eq_ok_iff.1 h, ← hb]; rfl⟩
  · next hc =>
    rw [hc] at hb
    exact ⟨.boolean true, by rw [readWord_eq_ok_iff.1 h, ← hb]; rfl⟩
  · next hc =>
    rw [hc] at hb
    exact ⟨.boolean false, by rw [readWord_eq_ok_iff.1 h, ← hb]; rfl⟩
  · next hc =>
    rw [hc] at hb
    obtain ⟨s, rest', hs⟩ := (skipText_eq_ok_iff.1 h).exists_rawText
    obtain rfl := hs.marks.unique (skipText_eq_ok_iff.1 h)
    exact ⟨.string s, bs, by rw [← hb], hs⟩
  · split at h
    · rcases hl : readLiteral (b :: bs) with fault | ⟨l, rest'⟩
      · simp [skipNumber, hl] at h
      · simp only [skipNumber, hl, Except.ok.injEq] at h
        exact ⟨.number l, h ▸ written_of_readLiteral hl⟩
    · cases h

/-- What is spelled is passed over as a scalar, unless it begins with a bracket. -/
theorem Spelled.skipScalar_eq (h : Spelled bs v rest) (hf : Follows rest)
    (harray : v.kind ≠ .array) (hobject : v.kind ≠ .object) : skipScalar bs = .ok rest := by
  rw [spelled_iff] at h
  rcases v with _ | (_ | _) | l | s | items | members
  case number =>
    obtain ⟨b, t, rfl, hb⟩ := Written.head h
    have hc := byte_ofUInt8 b
    -- what words and texts begin with is neither a minus nor a digit
    simp only [skipScalar]
    split
    · next he => rw [he] at hc; subst hc; exact absurd hb (by decide)
    · next he => rw [he] at hc; subst hc; exact absurd hb (by decide)
    · next he => rw [he] at hc; subst hc; exact absurd hb (by decide)
    · next he => rw [he] at hc; subst hc; exact absurd hb (by decide)
    · rw [if_pos hb, skipNumber, Written.readLiteral_eq h hf]
  case string =>
    obtain ⟨t, rfl, h⟩ := h
    exact skipText_eq_ok_iff.2 h.marks
  case array => exact absurd rfl harray
  case object => exact absurd rfl hobject
  all_goals
    obtain rfl := h
    rfl

end Scalars

/-! ### Brackets -/

namespace Bracket

variable {k : Bracket} {first : Bool} {bs mid rest : Bytes}

/-- What is missing of a bracket, up to the closing one. -/
def Goes (k : Bracket) (first : Bool) (bs rest : Bytes) : Prop :=
  match k with
  | .array => ∃ vs, Series (byte ']') Spelled first bs vs rest
  | .object => ∃ ms, Series (byte '\x7d') (RawMember Spelled) first bs ms rest

theorem isBlank_closing (k : Bracket) : isBlank k.closing = false := by
  cases k <;> decide

theorem goes_of_blanks (h : Blanks bs (k.closing :: rest)) : k.Goes first bs rest := by
  cases k
  · exact ⟨[], .close h⟩
  · exact ⟨[], .close h⟩

theorem Goes.follows (h : k.Goes false bs rest) : Follows bs := by
  cases k with
  | array => exact h.choose_spec.follows (.inl rfl)
  | object => exact h.choose_spec.follows (.inr rfl)

theorem skipName_eq_ok_iff :
    skipName bs = .ok rest ↔ ∃ t a, skipBlanks bs = byte '"' :: t ∧ Marks t a ∧
      Blanks a (byte ':' :: rest) := by
  rcases hs : skipBlanks bs with _ | ⟨b, t⟩
  · simp [skipName, hs]
  by_cases hb : b = byte '"'
  · simp [skipName, hs, hb, bind_eq_ok_iff, skipText_eq_ok_iff, readColon_eq,
      readMark_eq_ok_iff (show isBlank (byte ':') = false by decide)]
  · simp [skipName, hs, hb]

/-- **Where a reader has entered**, a value comes first, and then what else is missing. -/
theorem goes_of_enter {bs₁ m : Bytes} {v : Raw} (ho : Opens first bs (skipBlanks mid))
    (he : k.enter mid = .ok bs₁) (hv : Spelled (skipBlanks bs₁) v m) (hg : k.Goes false m rest) :
    k.Goes first bs rest := by
  cases k with
  | array =>
    obtain rfl := Except.ok.inj he
    obtain ⟨vs, hvs⟩ := hg
    exact ⟨v :: vs, .item ho hv hvs⟩
  | object =>
    obtain ⟨t, a, ht, hm, hcolon⟩ := skipName_eq_ok_iff.1 he
    obtain ⟨ms, hms⟩ := hg
    obtain ⟨s, a', hs⟩ := hm.exists_rawText
    obtain rfl := hs.marks.unique hm
    rw [ht] at ho
    exact ⟨(s, v) :: ms, .item ho (.mk hs hcolon (blanks_skipBlanks bs₁) hv) hms⟩

/-- What is missing is the closing bracket, or a value that can be entered. -/
theorem Goes.exists_enter (h : k.Goes first bs rest) :
    Blanks bs (k.closing :: rest) ∨
    ∃ b t, Opens first bs (b :: t) ∧ isBlank b = false ∧ b ≠ k.closing ∧
      ∀ mid, skipBlanks mid = b :: t → ∃ bs₁ v m, k.enter mid = .ok bs₁ ∧
        bs₁.length ≤ mid.length ∧ Spelled (skipBlanks bs₁) v m ∧ k.Goes false m rest := by
  cases k with
  | array =>
    obtain ⟨vs, h⟩ := h
    cases h with
    | close h => exact .inl h
    | @item _ _ _ m _ v vs ho hv hvs =>
      obtain ⟨b, t, rfl, hb, hne, -⟩ := hv.begins
      exact .inr ⟨b, t, ho, hb, hne, fun mid hmid =>
        ⟨mid, v, m, rfl, Nat.le_refl _, hmid ▸ hv, vs, hvs⟩⟩
  | object =>
    obtain ⟨ms, h⟩ := h
    cases h with
    | close h => exact .inl h
    | @item _ _ _ m _ a ms ho hm hms =>
      obtain @⟨t, a, b, c, _, name, v, text, colon, blanks, hv⟩ := hm
      refine .inr ⟨_, t, ho, by decide, by decide, fun mid hmid => ?_⟩
      have he : object.enter mid = .ok b :=
        skipName_eq_ok_iff.2 ⟨t, a, hmid, text.marks, colon⟩
      have hl : b.length ≤ mid.length := by
        have hblanks := (blanks_skipBlanks mid).length_le
        have := text.marks.length_lt
        have := colon.length_le
        rw [hmid] at hblanks
        simp only [List.length_cons] at *
        omega
      have hs : skipBlanks b = c := blanks.skipBlanks_eq.trans hv.begins.skipBlanks_eq
      exact ⟨b, v, m, he, hl, hs.symm ▸ hv, ms, hms⟩

end Bracket

/-! ### Steps -/

/-- **What is missing behind a value**, of each open bracket from the innermost one on. -/
inductive Closes : List Bracket → Bytes → Bytes → Prop
  /-- No bracket is open. -/
  | nil (rest : Bytes) : Closes [] rest rest
  /-- The innermost one goes on, and then the others do. -/
  | cons {k : Bracket} {ks : List Bracket} {bs mid rest : Bytes} (h : k.Goes false bs mid) :
      Closes ks mid rest → Closes (k :: ks) bs rest

/-- What is missing after a step: nothing, or a value and what comes behind it. -/
inductive Missing : List Bracket → Bytes → Bytes → Prop
  /-- No bracket is open any more. -/
  | nothing (rest : Bytes) : Missing [] rest rest
  /-- A value inside of a bracket is next. -/
  | value {k : Bracket} {ks : List Bracket} {bs mid rest : Bytes} {v : Raw}
      (h : Spelled (skipBlanks bs) v mid) (closes : Closes (k :: ks) mid rest) :
      Missing (k :: ks) bs rest

section Steps

variable {k : Bracket} {ks ks' : List Bracket} {bs bs' mid rest : Bytes} {v : Raw}

theorem Closes.follows (h : Closes ks bs rest) (hrest : Follows rest) : Follows bs := by
  cases h with
  | nil => exact hrest
  | cons h _ => exact h.follows

/-- After a reader has entered a bracket, what is missing is what was before. -/
theorem Missing.goes {first : Bool} {bs₁ : Bytes} (ho : Opens first bs (skipBlanks mid))
    (he : k.enter mid = .ok bs₁) (h : Missing (k :: ks) bs₁ rest) :
    ∃ m, k.Goes first bs m ∧ Closes ks m rest := by
  cases h with
  | value hv hc =>
    cases hc with
    | cons hg hc => exact ⟨_, Bracket.goes_of_enter ho he hv hg, hc⟩

theorem closes_of_skipClosing (h : skipClosing ks bs = .ok (ks', bs'))
    (hm : Missing ks' bs' rest) : Closes ks bs rest := by
  induction ks generalizing bs with
  | nil =>
    cases h
    cases hm
    exact .nil _
  | cons k ks ih =>
    rcases hs : skipBlanks bs with _ | ⟨b, t⟩
    · simp [skipClosing, hs] at h
    simp only [skipClosing, hs] at h
    split at h
    · next hb =>
      subst hb
      have hb := (skipBlanks_eq_cons_iff.1 hs).1
      exact .cons (Bracket.goes_of_blanks hb) (ih h)
    · split at h
      · next hb =>
        obtain ⟨bs₁, he, h⟩ := bind_eq_ok_iff.1 h
        cases h
        subst hb
        have ho : Opens false bs (skipBlanks t) :=
          ⟨t, (skipBlanks_eq_cons_iff.1 hs).1, blanks_skipBlanks t⟩
        obtain ⟨m, hg, hc⟩ := hm.goes ho he
        exact .cons hg hc
      · cases h

theorem exists_skipClosing (h : Closes ks bs rest) :
    ∃ ks' bs', skipClosing ks bs = .ok (ks', bs') ∧ bs'.length ≤ bs.length ∧
      Missing ks' bs' rest := by
  induction h with
  | nil rest => exact ⟨[], rest, rfl, Nat.le_refl _, .nothing rest⟩
  | @cons k ks bs mid rest hg hc ih =>
    rcases Bracket.Goes.exists_enter hg with hclose | ⟨b, t, ho, hb, hne, henter⟩
    · have hs := skipBlanks_eq_cons_iff.2 ⟨hclose, k.isBlank_closing⟩
      obtain ⟨ks', bs', hskip, hl, hm⟩ := ih
      have := hclose.length_le
      rw [List.length_cons] at this
      exact ⟨ks', bs', by simp only [skipClosing, hs, if_true, hskip], by omega, hm⟩
    · obtain ⟨mid', hs, hmid'⟩ := (opens_false_iff hb).1 ho
      obtain ⟨bs₁, v, m, he, hl, hv, hg⟩ := henter mid' hmid'
      have hcomma : byte ',' ≠ k.closing := by cases k <;> decide
      have hskip : skipClosing (k :: ks) bs = .ok (k :: ks, bs₁) := by
        simp only [skipClosing, hs, hcomma, if_false, if_true]
        exact bind_eq_ok_iff.2 ⟨bs₁, he, rfl⟩
      have := (skipBlanks_eq_cons_iff.1 hs).1.length_le
      rw [List.length_cons] at this
      exact ⟨k :: ks, bs₁, hskip, by omega, .value hv (.cons hg hc)⟩

theorem goes_of_skipOpening (h : skipOpening k ks bs = .ok (ks', bs'))
    (hm : Missing ks' bs' rest) : ∃ mid, k.Goes true bs mid ∧ Closes ks mid rest := by
  rcases hs : skipBlanks bs with _ | ⟨b, t⟩
  · simp [skipOpening, hs] at h
  have hb := skipBlanks_eq_cons_iff.1 hs
  simp only [skipOpening, hs] at h
  split at h
  · next hclose =>
    subst hclose
    exact ⟨t, Bracket.goes_of_blanks hb.1, closes_of_skipClosing h hm⟩
  · obtain ⟨bs₁, he, h⟩ := bind_eq_ok_iff.1 h
    cases h
    have ho : Opens true bs (skipBlanks (b :: t)) := by
      rw [skipBlanks_cons hb.2]
      exact hb.1
    exact hm.goes ho he

theorem exists_skipOpening (hg : k.Goes true bs mid) (hc : Closes ks mid rest) :
    ∃ ks' bs', skipOpening k ks bs = .ok (ks', bs') ∧ bs'.length ≤ bs.length ∧
      Missing ks' bs' rest := by
  rcases Bracket.Goes.exists_enter hg with hclose | ⟨b, t, ho, hb, hne, henter⟩
  · have hs := skipBlanks_eq_cons_iff.2 ⟨hclose, k.isBlank_closing⟩
    obtain ⟨ks', bs', hskip, hl, hm⟩ := exists_skipClosing hc
    have := hclose.length_le
    rw [List.length_cons] at this
    exact ⟨ks', bs', by simp only [skipOpening, hs, if_true, hskip], by omega, hm⟩
  · have hs := (opens_true_iff hb).1 ho
    obtain ⟨bs₁, v, m, he, hl, hv, hg⟩ := henter (b :: t) (skipBlanks_cons hb t)
    have hskip : skipOpening k ks bs = .ok (k :: ks, bs₁) := by
      simp only [skipOpening, hs, hne, if_false]
      exact bind_eq_ok_iff.2 ⟨bs₁, he, rfl⟩
    have := (skipBlanks_eq_cons_iff.1 hs).1.length_le
    exact ⟨k :: ks, bs₁, hskip, by omega, .value hv (.cons hg hc)⟩

/-- **One step** begins where a value is next. -/
theorem exists_of_skipStep (h : skipStep ks bs = .ok (ks', bs')) (hm : Missing ks' bs' rest) :
    ∃ v mid, Spelled (skipBlanks bs) v mid ∧ Closes ks mid rest := by
  rcases hs : skipBlanks bs with _ | ⟨b, t⟩
  · simp [skipStep, hs] at h
  simp only [skipStep, hs] at h
  split at h
  · next hb =>
    obtain ⟨mid, ⟨vs, hvs⟩, hc⟩ := goes_of_skipOpening h hm
    exact ⟨.array vs, mid, spelled_iff.2 ⟨t, by rw [hb], hvs⟩, hc⟩
  · split at h
    · next hb =>
      obtain ⟨mid, ⟨ms, hms⟩, hc⟩ := goes_of_skipOpening h hm
      exact ⟨.object ms, mid, spelled_iff.2 ⟨t, by rw [hb], hms⟩, hc⟩
    · obtain ⟨mid, hscalar, h⟩ := bind_eq_ok_iff.1 h
      obtain ⟨v, hv⟩ := exists_spelled_of_skipScalar hscalar
      exact ⟨v, mid, hv, closes_of_skipClosing h hm⟩

/-- One step can be made where a value is next, and takes at least a byte. -/
theorem exists_skipStep (h : Spelled (skipBlanks bs) v mid) (hc : Closes ks mid rest)
    (hf : Follows rest) :
    ∃ ks' bs', skipStep ks bs = .ok (ks', bs') ∧ bs'.length < bs.length ∧
      Missing ks' bs' rest := by
  have hblanks := (blanks_skipBlanks bs).length_le
  by_cases harray : v.kind = .array
  · cases v <;> cases harray
    next vs =>
    obtain ⟨t, hs, hvs⟩ := spelled_iff.1 h
    obtain ⟨ks', bs', hskip, hl, hm⟩ := exists_skipOpening (k := .array) ⟨vs, hvs⟩ hc
    rw [hs, List.length_cons] at hblanks
    exact ⟨ks', bs', by simp only [skipStep, hs, if_true, hskip], by omega, hm⟩
  by_cases hobject : v.kind = .object
  · cases v <;> cases hobject
    next ms =>
    obtain ⟨t, hs, hms⟩ := spelled_iff.1 h
    obtain ⟨ks', bs', hskip, hl, hm⟩ := exists_skipOpening (k := .object) ⟨ms, hms⟩ hc
    have hne : byte '\x7b' ≠ byte '[' := by decide
    rw [hs, List.length_cons] at hblanks
    exact ⟨ks', bs', by simp only [skipStep, hs, hne, if_true, if_false, hskip], by omega, hm⟩
  · have hscalar := h.skipScalar_eq (hc.follows hf) harray hobject
    have hlt := h.length_lt
    obtain ⟨b, t, hs, hb⟩ := (spelled_iff.1 h).head
    have hne : b ≠ byte '[' ∧ b ≠ byte '\x7b' := by
      constructor
      · rintro rfl
        exact harray (Option.some.inj hb).symm
      · rintro rfl
        exact hobject (Option.some.inj hb).symm
    obtain ⟨ks', bs', hskip, hl, hm⟩ := exists_skipClosing hc
    refine ⟨ks', bs', ?_, by omega, hm⟩
    rw [hs] at hscalar
    simp only [skipStep, hs, hne, if_false]
    exact bind_eq_ok_iff.2 ⟨mid, hscalar, hskip⟩

end Steps

/-! ### Values -/

section Values

variable {rounds : Bytes} {ks : List Bracket} {bs mid rest : Bytes} {v : Raw}

theorem exists_of_skipAll (h : skipAll rounds ks bs = .ok rest) :
    ∃ v mid, Spelled (skipBlanks bs) v mid ∧ Closes ks mid rest := by
  induction rounds generalizing ks bs with
  | nil => cases h
  | cons r rounds ih =>
    rw [skipAll] at h
    split at h
    · cases h
    · next hstep =>
      cases h
      exact exists_of_skipStep hstep (.nothing _)
    · next hstep =>
      obtain ⟨v, mid, hv, hc⟩ := ih h
      exact exists_of_skipStep hstep (.value hv hc)

theorem skipAll_eq (h : Spelled (skipBlanks bs) v mid) (hc : Closes ks mid rest)
    (hf : Follows rest) (hrounds : bs.length ≤ rounds.length) :
    skipAll rounds ks bs = .ok rest := by
  induction rounds generalizing ks bs v mid with
  | nil =>
    have := h.length_lt
    have := (blanks_skipBlanks bs).length_le
    rw [List.length_nil] at hrounds
    omega
  | cons r rounds ih =>
    obtain ⟨ks', bs', hstep, hl, hm⟩ := exists_skipStep h hc hf
    rw [List.length_cons] at hrounds
    rw [skipAll, hstep]
    cases hm with
    | nothing => rfl
    | value hv hc' => exact ih hv hc' (by omega)

/-- **What is passed over is a value.** -/
theorem exists_spelled_of_skipValue (h : skipValue bs = .ok rest) :
    ∃ v, Spelled (skipBlanks bs) v rest := by
  obtain ⟨v, mid, hv, hc⟩ := exists_of_skipAll h
  cases hc
  exact ⟨v, hv⟩

/-- **Every value is passed over**, of whatever depth. -/
theorem Spelled.skipValue_eq (h : Spelled mid v rest) (hb : Blanks bs mid) (hf : Follows rest) :
    skipValue bs = .ok rest := by
  have hs : skipBlanks bs = mid := hb.skipBlanks_eq.trans h.begins.skipBlanks_eq
  exact skipAll_eq (hs.symm ▸ h) (.nil rest) hf (Nat.le_refl _)

end Values

end Json

end Relink
