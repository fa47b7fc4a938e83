import Relink.Proofs.Json.Grammar

/-!
# Reading scalars

The readers of blanks, texts, numbers and scalars read what the grammar says, and
all of it: a reader gives what it has read exactly if that is what the bytes begin
with. For numbers this needs a look at what follows. A reader takes as many digits
as there are, while the grammar is content with fewer, so a number is read as it is
written only if what comes after it can be no part of one.
-/

namespace Relink

namespace Json

variable {b : UInt8} {bs mid rest : Bytes}

/-! ### Blanks -/

theorem blanks_skipBlanks (bs : Bytes) : Blanks bs (skipBlanks bs) := by
  induction bs with
  | nil => exact .none []
  | cons b bs ih =>
    cases hb : isBlank b with
    | true => simpa [skipBlanks, hb] using Blanks.cons hb ih
    | false => simpa [skipBlanks, hb] using Blanks.none (b :: bs)

theorem Blanks.skipBlanks_eq (h : Blanks bs rest) : skipBlanks bs = skipBlanks rest := by
  induction h with
  | none bs => rfl
  | cons hb _ ih => simpa [skipBlanks, hb] using ih

theorem skipBlanks_cons (hb : isBlank b = false) (bs : Bytes) :
    skipBlanks (b :: bs) = b :: bs := by
  simp [skipBlanks, hb]

theorem skipBlanks_eq_cons_iff :
    skipBlanks bs = b :: rest ↔ Blanks bs (b :: rest) ∧ isBlank b = false := by
  constructor
  · intro h
    refine ⟨h ▸ blanks_skipBlanks bs, ?_⟩
    -- what the skipping stops at fails the test
    have hne : bs.dropWhile isBlank ≠ [] := by
      rw [skipBlanks] at h
      simp [h]
    have hhead := List.head_dropWhile_not isBlank hne
    rw [skipBlanks] at h
    simpa [h] using hhead
  · rintro ⟨h, hb⟩
    rw [h.skipBlanks_eq, skipBlanks_cons hb]

theorem skipBlanks_eq_nil_iff : skipBlanks bs = [] ↔ Blanks bs [] := by
  constructor
  · intro h
    exact h ▸ blanks_skipBlanks bs
  · intro h
    rw [h.skipBlanks_eq]
    rfl

theorem Begins.skipBlanks_eq (h : Begins bs) : skipBlanks bs = bs := by
  obtain ⟨b, t, rfl, hb, -, -⟩ := h
  exact skipBlanks_cons hb t

/-! ### Texts -/

section Texts

variable {acc out content : Bytes} {u v : Nat} {lead : Option Nat} {state : TextState}
  {r : Bytes × Bytes}

theorem exists_of_scanText_unit (h : scanText (.unit lead []) acc bs = .ok r) :
    ∃ a b c d rest u state out, bs = a :: b :: c :: d :: rest ∧
      hexValue? 0 [a, b, c, d] = some u ∧ takeUnit lead u = .ok (state, out) ∧
      scanText state (out ++ acc) rest = .ok r := by
  rcases bs with _ | ⟨a, _ | ⟨b, _ | ⟨c, _ | ⟨d, rest⟩⟩⟩⟩
  · simp [scanText] at h
  · simp [scanText] at h
  · simp [scanText] at h
  · simp [scanText] at h
  · rcases hv : hexValue? 0 [a, b, c, d] with _ | u
    · simp [scanText, hv] at h
    · rcases ht : takeUnit lead u with f | ⟨state, out⟩
      · simp [scanText, hv, ht] at h
      · rw [scanText_unit hv ht] at h
        exact ⟨a, b, c, d, rest, u, state, out, rfl, hv, ht, h⟩

theorem scanText_backslash (acc bs : Bytes) :
    scanText .plain acc (byte '\\' :: bs) = scanText .escape acc bs := by
  have hq : byte '\\' ≠ byte '"' := by decide
  rw [scanText, if_neg hq, if_pos rfl]

theorem UnitEscape.scanText_eq (h : UnitEscape bs u mid)
    (ht : takeUnit none u = .ok (state, out)) (acc : Bytes) :
    scanText .plain acc bs = scanText state (out ++ acc) mid := by
  obtain ⟨hv⟩ := h
  rw [scanText_backslash, scanText, if_pos rfl, scanText_unit hv ht]

theorem UnitEscape.scanText_lead_eq (h : UnitEscape bs v mid)
    (ht : takeUnit (some u) v = .ok (state, out)) (acc : Bytes) :
    scanText (.lead u) acc bs = scanText state (out ++ acc) mid := by
  obtain ⟨hv⟩ := h
  rw [scanText, if_pos rfl, scanText, if_pos rfl, scanText_unit hv ht]

/-- A character is read as it is spelled, and its bytes are kept. -/
theorem Piece.scanText_eq (h : Piece bs out mid) (acc : Bytes) :
    scanText .plain acc bs = scanText .plain (out.reverse ++ acc) mid := by
  cases h with
  | plain quote backslash control =>
    rw [scanText, if_neg quote, if_neg backslash, if_neg control]
    rfl
  | @escape b e _ h =>
    have hu : b ≠ byte 'u' := by
      rintro rfl
      cases h
    rw [scanText_backslash, scanText, if_neg hu, h]
    rfl
  | unit h lead trail => exact h.scanText_eq (by simp [takeUnit, lead, trail, codePointBytes]) acc
  | @pair _ _ _ u v h h' lead trail =>
    have ht : takeUnit none u = .ok (.lead u, []) := by simp [takeUnit, lead]
    rw [h.scanText_eq ht]
    exact h'.scanText_lead_eq (by simp [takeUnit, trail, codePointBytes]) acc

theorem exists_of_scanText_lead (h : scanText (.lead u) acc bs = .ok r) :
    ∃ v mid, UnitEscape bs v mid ∧ isTrail v = true := by
  rcases bs with _ | ⟨b, bs⟩
  · cases h
  by_cases hb : b ≠ byte '\\'
  · simp [scanText, hb] at h
  rw [Decidable.not_not] at hb
  subst hb
  rw [scanText, if_pos rfl] at h
  rcases bs with _ | ⟨c, bs⟩
  · cases h
  by_cases hc : c ≠ byte 'u'
  · simp [scanText, hc] at h
  rw [Decidable.not_not] at hc
  subst hc
  rw [scanText, if_pos rfl] at h
  obtain ⟨a, b, c, d, mid, v, state, out, rfl, hv, ht, -⟩ := exists_of_scanText_unit h
  refine ⟨v, mid, .mk hv, ?_⟩
  cases htrail : isTrail v with
  | true => rfl
  | false => simp [takeUnit, htrail] at ht

theorem exists_of_scanText_escape (h : scanText .escape acc bs = .ok r) :
    ∃ out mid, Piece (byte '\\' :: bs) out mid := by
  rcases bs with _ | ⟨c, bs⟩
  · cases h
  by_cases hu : c = byte 'u'
  · subst hu
    rw [scanText, if_pos rfl] at h
    obtain ⟨a, b, c, d, mid, u, state, out, rfl, hv, ht, h⟩ := exists_of_scanText_unit h
    cases hlead : isLead u with
    | true =>
      -- after a lead nothing but a second escape is read
      simp only [takeUnit, hlead, if_true] at ht
      cases ht
      obtain ⟨v, mid', hv', htrail⟩ := exists_of_scanText_lead h
      exact ⟨_, mid', .pair (.mk hv) hv' hlead htrail⟩
    | false =>
      cases htrail : isTrail u with
      | true => simp [takeUnit, hlead, htrail] at ht
      | false => exact ⟨_, mid, .unit (.mk hv) hlead htrail⟩
  · rcases he : escaped? c with _ | e
    · simp [scanText, hu, he] at h
    · exact ⟨[e], bs, .escape he⟩

/-- What a text is read from begins with its end or with a character. -/
theorem exists_piece_of_scanText (h : scanText .plain acc bs = .ok r) :
    (∃ rest, bs = byte '"' :: rest) ∨ ∃ out mid, Piece bs out mid := by
  rcases bs with _ | ⟨b, bs⟩
  · cases h
  by_cases hq : b = byte '"'
  · exact .inl ⟨bs, by rw [hq]⟩
  refine .inr ?_
  by_cases hb : b = byte '\\'
  · subst hb
    rw [scanText_backslash] at h
    exact exists_of_scanText_escape h
  · by_cases hc : b < 0x20
    · simp [scanText, hq, hb, hc] at h
    · exact ⟨[b], bs, .plain hq hb hc⟩

theorem UnitEscape.length_lt (h : UnitEscape bs u rest) : rest.length < bs.length := by
  obtain ⟨-⟩ := h
  simp only [List.length_cons]
  omega

theorem Piece.length_lt (h : Piece bs out rest) : rest.length < bs.length := by
  cases h with
  | plain => simp
  | escape => simp only [List.length_cons]; omega
  | unit h => exact h.length_lt
  | pair h h' => exact Nat.lt_trans h'.length_lt h.length_lt

theorem Pieces.scanText_eq (h : Pieces bs content rest) (acc : Bytes) :
    scanText .plain acc bs = .ok (acc.reverse ++ content, rest) := by
  induction h generalizing acc with
  | close rest => simp [scanText]
  | cons h _ ih => rw [h.scanText_eq, ih]; simp

/-- The bytes of a text are read exactly as they are spelled. -/
theorem scanText_eq_ok_iff :
    scanText .plain [] bs = .ok (content, rest) ↔ Pieces bs content rest := by
  constructor
  · -- by induction on the length, as every character takes at least one byte
    have hpieces : ∀ (n : Nat) (bs acc : Bytes) (r : Bytes × Bytes), bs.length < n →
        scanText .plain acc bs = .ok r →
        ∃ content, Pieces bs content r.2 ∧ r.1 = acc.reverse ++ content := by
      intro n
      induction n with
      | zero => intro bs acc r hn; omega
      | succ n ih =>
        intro bs acc r hn h
        rcases exists_piece_of_scanText h with ⟨rest, rfl⟩ | ⟨out, mid, hp⟩
        · rw [(Pieces.close rest).scanText_eq acc] at h
          cases h
          exact ⟨[], .close rest, rfl⟩
        · rw [hp.scanText_eq] at h
          have hlt := hp.length_lt
          obtain ⟨content, hc, hr⟩ := ih mid _ r (by omega) h
          exact ⟨out ++ content, .cons hp hc, by simp [hr]⟩
    intro h
    obtain ⟨content', hc, hr⟩ := hpieces _ bs [] _ (Nat.lt_succ_self _) h
    simp only [List.reverse_nil, List.nil_append] at hr
    exact hr ▸ hc
  · intro h
    simpa using h.scanText_eq []

/-- **A text is read exactly as it is spelled**, and only if its bytes are UTF-8. -/
theorem readText_eq_ok_iff {s : String} :
    readText bs = .ok (s, rest) ↔ TextRest bs s rest := by
  rw [TextRest, ← scanText_eq_ok_iff]
  rcases hs : scanText .plain [] bs with f | ⟨content, rest'⟩
  · simp [readText, hs, bind, Except.bind]
  · rcases hd : Text.decode content with _ | s'
    · -- bytes that decode to nothing encode nothing
      have hne : ∀ s, content ≠ Text.encode s := by
        rintro s rfl
        rw [Text.decode_encode] at hd
        cases hd
      simp [readText, hs, hd, bind, Except.bind, hne]
    · have hc := Text.eq_encode_of_decode hd
      subst hc
      have hinj : s' = s ↔ Text.encode s' = Text.encode s := by
        refine ⟨fun h => h ▸ rfl, fun h => ?_⟩
        rw [h, Text.decode_encode] at hd
        exact (Option.some.inj hd).symm
      simp [readText, hs, hd, bind, Except.bind, hinj]

end Texts

/-! ### Numbers -/

section Numbers

variable {ds : List Nat} {l : Literal} {n : Number}

/-- The bytes do not go on with a digit. -/
def NoDigit (bs : Bytes) : Prop := ∀ b ∈ bs.head?, digit? b = none

theorem NoDigit.of_cons (h : digit? b = none) (bs : Bytes) : NoDigit (b :: bs) := by
  intro c hc
  rw [List.head?_cons, Option.mem_some_iff] at hc
  exact hc ▸ h

theorem Digits.scanDigits_eq (h : Digits bs ds rest) (hn : NoDigit rest) (acc : List Nat) :
    scanDigits acc bs = (acc.reverse ++ ds, rest) := by
  induction h generalizing acc with
  | none bs =>
    cases bs with
    | nil => simp [scanDigits]
    | cons b bs => simp [scanDigits, hn b rfl]
  | cons hd _ ih => simp [scanDigits, hd, ih hn]

theorem digits_scanDigits (acc : List Nat) (bs : Bytes) :
    ∃ ds, Digits bs ds (scanDigits acc bs).2 ∧ NoDigit (scanDigits acc bs).2 ∧
      (scanDigits acc bs).1 = acc.reverse ++ ds := by
  induction bs generalizing acc with
  | nil => exact ⟨[], .none [], by simp [scanDigits, NoDigit], by simp [scanDigits]⟩
  | cons b bs ih =>
    rcases hd : digit? b with _ | d
    · exact ⟨[], by simpa [scanDigits, hd] using Digits.none (b :: bs),
        by simpa [scanDigits, hd] using NoDigit.of_cons hd bs, by simp [scanDigits, hd]⟩
    · obtain ⟨ds, h, hn, he⟩ := ih (d :: acc)
      exact ⟨d :: ds, by simpa [scanDigits, hd] using Digits.cons hd h,
        by simpa [scanDigits, hd] using hn, by simp [scanDigits, hd, he]⟩

theorem readDigits_eq_ok_iff :
    readDigits bs = .ok (ds, rest) ↔ Digits bs ds rest ∧ ds ≠ [] ∧ NoDigit rest := by
  obtain ⟨ds', h, hn, he⟩ := digits_scanDigits [] bs
  constructor
  · intro hr
    rcases hs : scanDigits [] bs with ⟨_ | ⟨d, ds₁⟩, rest₁⟩
    · cases rest₁ <;> simp [readDigits, hs] at hr
    · simp only [readDigits, hs] at hr
      cases hr
      rw [hs] at h hn he
      have he : d :: ds₁ = ds' := by simpa using he
      exact ⟨he ▸ h, by simp, hn⟩
  · rintro ⟨hd, hne, hr⟩
    rw [readDigits, hd.scanDigits_eq hr, List.reverse_nil, List.nil_append]
    cases ds with
    | nil => exact absurd rfl hne
    | cons d ds => rfl

theorem readWhole_eq_ok_iff :
    readWhole bs = .ok (ds, rest) ↔ Whole bs ds rest ∧ NoDigit rest := by
  constructor
  · intro hr
    obtain ⟨⟨ds₁, rest₁⟩, hd, hr⟩ := bind_eq_ok_iff.1 hr
    obtain ⟨h, hne, hn⟩ := readDigits_eq_ok_iff.1 hd
    simp only at hr
    split at hr
    · cases hr
    · next hz =>
      cases hr
      refine ⟨⟨h, hne, fun h0 => ?_⟩, hn⟩
      -- a zero has been let pass only if nothing comes behind it
      rcases ds with _ | ⟨d, _ | ⟨d', ds⟩⟩
      · cases h0
      · rw [Option.some.inj h0]
      · rw [Option.some.inj h0] at hz
        exact absurd rfl (hz d' ds)
  · rintro ⟨⟨h, hne, hz⟩, hn⟩
    refine bind_eq_ok_iff.2 ⟨(ds, rest), readDigits_eq_ok_iff.2 ⟨h, hne, hn⟩, ?_⟩
    dsimp only
    split
    · exact absurd (hz rfl) (by simp)
    · rfl

theorem fraction_of_readFraction {f : Option (List Nat)} (h : readFraction bs = .ok (f, rest)) :
    Fraction bs f rest := by
  rcases bs with _ | ⟨b, bs⟩
  · cases h
    exact .none []
  · by_cases hb : b = byte '.'
    · rw [readFraction, if_pos hb] at h
      obtain ⟨⟨ds, rest₁⟩, hd, h⟩ := bind_eq_ok_iff.1 h
      cases h
      obtain ⟨hds, hne, -⟩ := readDigits_eq_ok_iff.1 hd
      exact hb ▸ .some hds hne
    · simp only [readFraction, hb, if_false] at h
      cases h
      exact .none _

theorem Fraction.readFraction_eq {f : Option (List Nat)} (h : Fraction bs f rest)
    (hn : NoDigit rest) (hp : byte '.' ∉ rest.head?) : readFraction bs = .ok (f, rest) := by
  cases h with
  | none =>
    cases bs with
    | nil => rfl
    | cons b bs =>
      have hb : ¬b = byte '.' := fun hb => hp (by rw [List.head?_cons, hb]; rfl)
      simp [readFraction, hb]
  | some hds hne =>
    simp [readFraction, readDigits_eq_ok_iff.2 ⟨hds, hne, hn⟩, bind, Except.bind]

theorem Fraction.noDigit {f : Option (List Nat)} (h : Fraction bs f rest) (hn : NoDigit rest) :
    NoDigit bs := by
  cases h with
  | none => exact hn
  | some => exact .of_cons (by decide) _

theorem exponentSign_readExponentSign (bs : Bytes) :
    ExponentSign bs (readExponentSign bs).1 (readExponentSign bs).2 := by
  rcases bs with _ | ⟨b, bs⟩
  · exact .none []
  · by_cases hm : b = byte '-'
    · subst hm
      exact .minus bs
    · by_cases hp : b = byte '+'
      · subst hp
        exact .plus bs
      · simpa [readExponentSign, hm, hp] using ExponentSign.none (b :: bs)

theorem ExponentSign.readExponentSign_eq {down : Bool} (h : ExponentSign bs down mid)
    (hd : Digits mid ds rest) (hne : ds ≠ []) : readExponentSign bs = (down, mid) := by
  cases h with
  | plus => rfl
  | minus => rfl
  | none =>
    cases hd with
    | none => exact absurd rfl hne
    | @cons b d bs _ _ hb _ =>
      have hm : b ≠ byte '-' := by rintro rfl; cases hb
      have hp : b ≠ byte '+' := by rintro rfl; cases hb
      simp [readExponentSign, hm, hp]

theorem exponent_of_readExponent {e : Option (Bool × List Nat)}
    (h : readExponent bs = .ok (e, rest)) : Exponent bs e rest := by
  rcases bs with _ | ⟨b, bs⟩
  · cases h
    exact .none []
  · by_cases hb : b = byte 'e' ∨ b = byte 'E'
    · rw [readExponent, if_pos hb] at h
      obtain ⟨⟨ds, rest₁⟩, hd, h⟩ := bind_eq_ok_iff.1 h
      cases h
      obtain ⟨hds, hne, -⟩ := readDigits_eq_ok_iff.1 hd
      exact .some hb (exponentSign_readExponentSign bs) hds hne
    · simp only [readExponent, hb, if_false] at h
      cases h
      exact .none _

theorem Exponent.readExponent_eq {e : Option (Bool × List Nat)} (h : Exponent bs e rest)
    (hf : Follows rest) : readExponent bs = .ok (e, rest) := by
  cases h with
  | none =>
    cases bs with
    | nil => rfl
    | cons b bs =>
      obtain ⟨-, -, he, hE⟩ := hf.not_number (b := b) rfl
      simp [readExponent, he, hE]
  | some letter sign hds hne =>
    have hn : NoDigit rest := fun b hb => (hf.not_number hb).1
    simp [readExponent, letter, sign.readExponentSign_eq hds hne,
      readDigits_eq_ok_iff.2 ⟨hds, hne, hn⟩, bind, Except.bind]

/-- Neither an exponent nor what may follow a value goes on a fraction. -/
theorem Exponent.noDigit {e : Option (Bool × List Nat)} (h : Exponent bs e rest)
    (hf : Follows rest) : NoDigit bs ∧ byte '.' ∉ bs.head? := by
  cases h with
  | none => exact ⟨fun b hb => (hf.not_number hb).1, fun hb => (hf.not_number hb).2.1 rfl⟩
  | some letter _ _ _ =>
    rcases letter with rfl | rfl
    · exact ⟨.of_cons (by decide) _, by simp; decide⟩
    · exact ⟨.of_cons (by decide) _, by simp; decide⟩

theorem minus_readMinus (bs : Bytes) : Minus bs (readMinus bs).1 (readMinus bs).2 := by
  rcases bs with _ | ⟨b, bs⟩
  · exact .none []
  · by_cases hb : b = byte '-'
    · subst hb
      exact .some bs
    · simpa [readMinus, hb] using Minus.none (b :: bs)

theorem Minus.readMinus_eq {negative : Bool} (h : Minus bs negative mid)
    (hw : Whole mid ds rest) : readMinus bs = (negative, mid) := by
  cases h with
  | some => rfl
  | none =>
    obtain ⟨hd, hne, -⟩ := hw
    cases hd with
    | none => exact absurd rfl hne
    | @cons b d bs _ _ hb _ =>
      have hm : b ≠ byte '-' := by rintro rfl; cases hb
      simp [readMinus, hm]

theorem written_of_readLiteral (h : readLiteral bs = .ok (l, rest)) : Written bs l rest := by
  obtain ⟨⟨ds, b₁⟩, hw, h⟩ := bind_eq_ok_iff.1 h
  obtain ⟨⟨fraction, b₂⟩, hf, h⟩ := bind_eq_ok_iff.1 h
  obtain ⟨⟨exponent, b₃⟩, he, h⟩ := bind_eq_ok_iff.1 h
  cases h
  exact .mk (minus_readMinus bs) (readWhole_eq_ok_iff.1 hw).1 (fraction_of_readFraction hf)
    (exponent_of_readExponent he)

theorem Written.readLiteral_eq (h : Written bs l rest) (hf : Follows rest) :
    readLiteral bs = .ok (l, rest) := by
  obtain ⟨minus, whole, fraction, exponent⟩ := h
  obtain ⟨hn, hp⟩ := exponent.noDigit hf
  simp [readLiteral, minus.readMinus_eq whole,
    readWhole_eq_ok_iff.2 ⟨whole, fraction.noDigit hn⟩, fraction.readFraction_eq hn hp,
    exponent.readExponent_eq hf, bind, Except.bind]

end Numbers

/-! ### Scalars -/

section Scalars

variable {v : Json}

theorem readWord_eq_ok_iff {ws : List UInt8} : readWord ws bs = .ok rest ↔ bs = ws ++ rest := by
  induction ws generalizing bs with
  | nil => simp [readWord]
  | cons w ws ih =>
    cases bs with
    | nil => simp [readWord]
    | cons b bs =>
      by_cases hb : b = w
      · simp [readWord, hb, ih]
      · simp [readWord, hb]

theorem byte_ofUInt8 (b : UInt8) : byte (Char.ofUInt8 b) = b := UInt8.toUInt8_toUInt32 b

theorem exists_of_readNumber {n : Number} (h : readNumber bs = .ok (n, rest)) :
    ∃ l, Written bs l rest ∧ Number.ofLiteral? l = some n := by
  obtain ⟨⟨l, rest₁⟩, hl, h⟩ := bind_eq_ok_iff.1 h
  simp only at h
  split at h
  · next m hr =>
    cases h
    exact ⟨l, written_of_readLiteral hl, hr⟩
  · cases h

theorem scalar_of_readScalar (h : readScalar bs = .ok (v, rest)) : Scalar bs v rest := by
  rcases bs with _ | ⟨b, bs⟩
  · cases h
  have hb := byte_ofUInt8 b
  simp only [readScalar] at h
  split at h
  · next hc =>
    rw [hc] at hb
    obtain ⟨rest₁, hw, h⟩ := bind_eq_ok_iff.1 h
    cases h
    rw [readWord_eq_ok_iff.1 hw, ← hb]
    exact .null rest
  · next hc =>
    rw [hc] at hb
    obtain ⟨rest₁, hw, h⟩ := bind_eq_ok_iff.1 h
    cases h
    rw [readWord_eq_ok_iff.1 hw, ← hb]
    exact .yes rest
  · next hc =>
    rw [hc] at hb
    obtain ⟨rest₁, hw, h⟩ := bind_eq_ok_iff.1 h
    cases h
    rw [readWord_eq_ok_iff.1 hw, ← hb]
    exact .no rest
  · next hc =>
    rw [hc] at hb
    obtain ⟨⟨s, rest₁⟩, ht, h⟩ := bind_eq_ok_iff.1 h
    cases h
    rw [← hb]
    exact .string (readText_eq_ok_iff.1 ht)
  · split at h
    · obtain ⟨⟨n, rest₁⟩, hn, h⟩ := bind_eq_ok_iff.1 h
      cases h
      obtain ⟨l, hl, hr⟩ := exists_of_readNumber hn
      exact .number hl hr
    · cases h

/-- A number begins with a minus sign or a digit. -/
theorem Written.head {l : Literal} (h : Written bs l rest) :
    ∃ b t, bs = b :: t ∧ (b = byte '-' ∨ (digit? b).isSome) := by
  obtain ⟨negative, ds, fraction, exponent⟩ := l
  obtain ⟨minus, ⟨digits, ne, -⟩, -, -⟩ := h
  cases minus with
  | some => exact ⟨_, _, rfl, .inl rfl⟩
  | none =>
    cases digits with
    | none => exact absurd rfl ne
    | cons hd _ => exact ⟨_, _, rfl, .inr (by simp [hd])⟩

theorem Scalar.readScalar_eq (h : Scalar bs v rest) (hf : Follows rest) :
    readScalar bs = .ok (v, rest) := by
  cases h with
  | null => rfl
  | yes => rfl
  | no => rfl
  | @string bs _ s h =>
    simp only [readScalar]
    exact bind_eq_ok_iff.2 ⟨(s, rest), readText_eq_ok_iff.2 h, rfl⟩
  | @number _ _ l n h range =>
    have hread : readNumber bs = .ok (n, rest) := by
      simp [readNumber, h.readLiteral_eq hf, range, bind, Except.bind]
    obtain ⟨b, t, rfl, hb⟩ := h.head
    have hc := byte_ofUInt8 b
    -- what words and texts begin with is neither a minus nor a digit
    simp only [readScalar]
    split
    · next he => rw [he] at hc; subst hc; exact absurd hb (by decide)
    · next he => rw [he] at hc; subst hc; exact absurd hb (by decide)
    · next he => rw [he] at hc; subst hc; exact absurd hb (by decide)
    · next he => rw [he] at hc; subst hc; exact absurd hb (by decide)
    · rw [if_pos hb, hread]
      rfl

end Scalars

end Json

end Relink
