import Mathlib.Data.List.DropRight
import Mathlib.Data.List.TakeWhile
import Relink.Proofs.PathLanguage

/-!
# Plain paths

There is a simpler way to tell whether a value denotes a path than to look for the
path in it: bring both into a normal form, without blanks around them, without a
leading separator and with all separators alike, and compare (`normalForm`). Here it is
settled when that gives the same answers. It does exactly for the paths that are
*plain* (`IsPlain`): behind the separator that they may begin with, they begin neither
with another separator nor with a blank, and they do not end with a blank.

For a plain path there is only one way to cut a value that denotes it. Its body begins
with no blank and no separator and ends with no blank, so what stands before the body
and behind it is what the normal form takes away. For any other path the normal form
takes away something that the path insists on, and one of three values gives the
comparison away: the path without its leading separator, which denotes the path; the
same without the blanks at its end, or the whole path without blanks around it, which
are too short to denote it.

The one fact about trimming that all of this rests on is that a text can be cut into
blanks, a trimmed text and blanks in one way only (`Text.trim_append`,
`Text.exists_append_trim`).
-/

namespace Relink

/-! ### Trimmed texts -/

namespace Text

/-- A text is trimmed if it neither begins nor ends with a blank. -/
structure IsTrimmed (cs : List Char) : Prop where
  /-- It does not begin with a blank. -/
  head : ∀ c ∈ cs.head?, isBlank c = false
  /-- It does not end with a blank. -/
  last : ∀ c ∈ cs.getLast?, isBlank c = false

/-- Nothing but blanks, if anything. -/
def IsBlanks (w : List Char) : Prop := ∀ c ∈ w, isBlank c = true

variable {cs x w w₁ w₂ : List Char}

theorem isBlanks_nil : IsBlanks [] := by simp [IsBlanks]

theorem IsBlanks.append (h₁ : IsBlanks w₁) (h₂ : IsBlanks w₂) : IsBlanks (w₁ ++ w₂) := by
  intro c hc
  rcases List.mem_append.1 hc with hc | hc
  · exact h₁ c hc
  · exact h₂ c hc

theorem trim_eq_rdropWhile (cs : List Char) :
    trim cs = (cs.dropWhile isBlank).rdropWhile isBlank := rfl

/-- **Trimming takes blanks away and leaves a trimmed text.** -/
theorem exists_append_trim (cs : List Char) :
    ∃ w₁ w₂, cs = w₁ ++ trim cs ++ w₂ ∧ IsBlanks w₁ ∧ IsBlanks w₂ := by
  refine ⟨cs.takeWhile isBlank, (cs.dropWhile isBlank).rtakeWhile isBlank, ?_, ?_, ?_⟩
  · rw [trim_eq_rdropWhile, List.append_assoc, List.rdropWhile_append_rtakeWhile,
      List.takeWhile_append_dropWhile]
  · exact fun c hc => List.mem_takeWhile_imp hc
  · exact fun c hc => List.mem_rtakeWhile_imp hc

theorem isTrimmed_trim (cs : List Char) : IsTrimmed (trim cs) where
  head c hc := by
    -- what is left begins as the text without the blanks before it does
    obtain ⟨w, hw⟩ : trim cs <+: cs.dropWhile isBlank := List.rdropWhile_prefix isBlank _
    have hhead := List.head?_dropWhile_not isBlank cs
    rw [← hw, List.head?_append, Option.mem_def.1 hc] at hhead
    simpa using hhead
  last c hc := by
    rw [trim_eq_rdropWhile] at hc
    obtain ⟨hne, rfl⟩ := List.mem_getLast?_eq_getLast hc
    simpa using List.rdropWhile_last_not isBlank _ hne

theorem rdropWhile_append (x : List Char) (h : IsBlanks w) :
    (x ++ w).rdropWhile isBlank = x.rdropWhile isBlank := by
  have hw : ∀ c ∈ w.reverse, isBlank c = true := fun c hc => h c (List.mem_reverse.1 hc)
  rw [List.rdropWhile, List.reverse_append, List.dropWhile_append_of_pos hw, List.rdropWhile]

/-- **What is trimmed is found again**, whatever blanks stand around it. -/
theorem trim_append (hx : IsTrimmed x) (h₁ : IsBlanks w₁) (h₂ : IsBlanks w₂) :
    trim (w₁ ++ x ++ w₂) = x := by
  have hself : x.rdropWhile isBlank = x := by
    refine List.rdropWhile_eq_self_iff.2 fun hne => ?_
    simpa using hx.last _ (List.getLast?_eq_some_getLast hne)
  rw [trim_eq_rdropWhile, List.append_assoc, List.dropWhile_append_of_pos h₁]
  cases x with
  | nil => rw [List.nil_append, List.dropWhile_eq_nil_iff.2 h₂, List.rdropWhile_nil]
  | cons c x =>
    have hc : isBlank c = false := hx.head c rfl
    rw [List.cons_append, List.dropWhile_cons_of_neg (by simp [hc]), ← List.cons_append,
      rdropWhile_append _ h₂, hself]

theorem IsTrimmed.trim_eq (hx : IsTrimmed x) : trim x = x := by
  simpa using trim_append hx isBlanks_nil isBlanks_nil

/-- Blanks behind a text make no difference to what trimming leaves of it. -/
theorem trim_append_blanks (cs : List Char) (hw : IsBlanks w) : trim (cs ++ w) = trim cs := by
  obtain ⟨w₁, w₂, hcs, h₁, h₂⟩ := exists_append_trim cs
  have h := trim_append (isTrimmed_trim cs) h₁ (h₂.append hw)
  rwa [← List.append_assoc, ← hcs] at h

/-- Behind a character that is no blank only the blanks at the end go. -/
theorem exists_trim_cons {c : Char} (hc : isBlank c = false) (cs : List Char) :
    ∃ x w, cs = x ++ w ∧ IsBlanks w ∧ trim (c :: cs) = c :: x := by
  obtain ⟨w₁, w₂, hcs, h₁, h₂⟩ := exists_append_trim (c :: cs)
  cases w₁ with
  | cons d w₁ =>
    obtain rfl : c = d := (List.cons.inj hcs).1
    rw [h₁ c List.mem_cons_self] at hc
    cases hc
  | nil =>
    cases htrim : trim (c :: cs) with
    | nil =>
      rw [htrim] at hcs
      obtain rfl : w₂ = c :: cs := hcs.symm
      rw [h₂ c List.mem_cons_self] at hc
      cases hc
    | cons d x =>
      rw [htrim] at hcs
      obtain ⟨rfl, rfl⟩ := List.cons.inj hcs
      exact ⟨x, w₂, rfl, h₂, rfl⟩

/-- A text that trimming leaves as long as it was is trimmed. -/
theorem isTrimmed_of_length_le (h : cs.length ≤ (trim cs).length) : IsTrimmed cs := by
  obtain ⟨w₁, w₂, hcs, -, -⟩ := exists_append_trim cs
  have hlength := congrArg List.length hcs
  simp only [List.length_append] at hlength
  obtain rfl : w₁ = [] := List.eq_nil_of_length_eq_zero (by omega)
  obtain rfl : w₂ = [] := List.eq_nil_of_length_eq_zero (by omega)
  rw [List.nil_append, List.append_nil] at hcs
  exact hcs ▸ isTrimmed_trim cs

end Text

/-! ### Normal forms -/

/-- A separator as it stands in normal forms; any other character is left alone. -/
def canonical (c : Char) : Char := if c = '\\' then '/' else c

/-- **The normal form of a text**: without blanks around it, without the separator that
it may then begin with, and with all other separators alike. -/
def normalForm (cs : List Char) : List Char :=
  (PathPattern.dropSeparator (Text.trim cs)).map canonical

/-- A text is bare if it begins neither with a separator nor with a blank and does not
end with a blank. -/
structure IsBare (t : List Char) : Prop extends Text.IsTrimmed t where
  /-- It does not begin with a separator. -/
  head_separator : ∀ c ∈ t.head?, isSeparator c = false

/-- **A path is plain** if it is bare without the separator that it may begin with. -/
def IsPlain (path : List Char) : Prop := IsBare (PathPattern.dropSeparator path)

/-- The characters at the two ends decide whether a text is bare. -/
theorem isBare_iff_all {t : List Char} :
    (t.head?.all fun c => !Text.isBlank c && !isSeparator c) = true ∧
      (t.getLast?.all fun c => !Text.isBlank c) = true ↔ IsBare t := by
  simp only [Option.all_eq_true, Bool.and_eq_true, Bool.not_eq_true']
  constructor
  · rintro ⟨hhead, hlast⟩
    exact ⟨⟨fun c hc => (hhead c hc).1, hlast⟩, fun c hc => (hhead c hc).2⟩
  · intro h
    exact ⟨fun c hc => ⟨h.head c hc, h.head_separator c hc⟩, h.last⟩

instance (path : List Char) : Decidable (IsPlain path) := decidable_of_iff _ isBare_iff_all

section NormalForms

open PathPattern

variable {path s t body value : List Char}

theorem exists_append_dropSeparator (cs : List Char) :
    ∃ s, MaybeSeparator s ∧ cs = s ++ dropSeparator cs := by
  cases cs with
  | nil => exact ⟨[], .inl rfl, rfl⟩
  | cons c cs =>
    rw [dropSeparator]
    split
    · next hc => exact ⟨[c], .inr ⟨c, hc, rfl⟩, rfl⟩
    · exact ⟨[], .inl rfl, rfl⟩

theorem dropSeparator_append (hs : MaybeSeparator s)
    (ht : ∀ c ∈ t.head?, isSeparator c = false) : dropSeparator (s ++ t) = t := by
  rcases hs with rfl | ⟨c, hc, rfl⟩
  · cases t with
    | nil => rfl
    | cons c t => simp [dropSeparator, ht c rfl]
  · simp [dropSeparator, hc]

theorem isBlank_of_isSeparator {c : Char} (h : isSeparator c = true) :
    Text.isBlank c = false := by
  cases hb : Text.isBlank c with
  | false => rfl
  | true =>
    rw [isSeparator_of_isBlank hb] at h
    cases h

/-- A trimmed text stays trimmed with a separator before it. -/
theorem isTrimmed_append (hs : MaybeSeparator s) (ht : Text.IsTrimmed t) :
    Text.IsTrimmed (s ++ t) := by
  rcases hs with rfl | ⟨c, hc, rfl⟩
  · exact ht
  · have hb := isBlank_of_isSeparator hc
    refine ⟨?_, ?_⟩
    · intro d hd
      obtain rfl : c = d := by simpa using hd
      exact hb
    · intro d hd
      cases t with
      | nil =>
        obtain rfl : c = d := by simpa using hd
        exact hb
      | cons e t => exact ht.last d (by simpa using hd)

theorem canonical_of_isSeparator {c : Char} (h : isSeparator c = true) : canonical c = '/' := by
  simp only [isSeparator, Bool.or_eq_true, beq_iff_eq] at h
  rcases h with rfl | rfl <;> rfl

theorem canonical_of_isSeparator_eq_false {c : Char} (h : isSeparator c = false) :
    canonical c = c := by
  refine if_neg ?_
  rintro rfl
  cases h

theorem isSeparator_canonical (c : Char) : isSeparator (canonical c) = isSeparator c := by
  cases hc : isSeparator c with
  | false => rw [canonical_of_isSeparator_eq_false hc, hc]
  | true => rw [canonical_of_isSeparator hc]; rfl

theorem isBlank_canonical (c : Char) : Text.isBlank (canonical c) = Text.isBlank c := by
  cases hc : isSeparator c with
  | false => rw [canonical_of_isSeparator_eq_false hc]
  | true =>
    rw [canonical_of_isSeparator hc, isBlank_of_isSeparator hc]
    rfl

/-- Two characters have the same canonical form just if they agree. -/
theorem canonical_eq_iff {t c : Char} : canonical t = canonical c ↔ Agrees t c := by
  have hslash : ∀ {d : Char}, isSeparator d = false → d ≠ '/' := by
    rintro _ hd rfl
    cases hd
  unfold Agrees
  cases ht : isSeparator t <;> cases hc : isSeparator c
  · simp [canonical_of_isSeparator_eq_false ht, canonical_of_isSeparator_eq_false hc, eq_comm]
  · have hne : c ≠ t := by
      rintro rfl
      rw [hc] at ht
      cases ht
    simp [canonical_of_isSeparator_eq_false ht, canonical_of_isSeparator hc, hslash ht, hne]
  · simp [canonical_of_isSeparator ht, canonical_of_isSeparator_eq_false hc, (hslash hc).symm]
  · simp [canonical_of_isSeparator ht, canonical_of_isSeparator hc]

theorem map_canonical_eq_iff {x y : List Char} :
    x.map canonical = y.map canonical ↔ List.Forall₂ Agrees x y := by
  simp only [← List.forall₂_eq_eq_eq, List.forall₂_map_left_iff, List.forall₂_map_right_iff,
    canonical_eq_iff]

theorem agrees_refl (c : Char) : Agrees c c := canonical_eq_iff.1 rfl

theorem length_normalForm_le (cs : List Char) :
    (normalForm cs).length ≤ (Text.trim cs).length := by
  obtain ⟨s, -, hs⟩ := exists_append_dropSeparator (Text.trim cs)
  have := congrArg List.length hs
  simp only [List.length_append, normalForm, List.length_map] at this ⊢
  omega

theorem normalForm_trim (cs : List Char) : normalForm (Text.trim cs) = normalForm cs := by
  rw [normalForm, (Text.isTrimmed_trim cs).trim_eq, normalForm]

/-! ### Comparing normal forms -/

/-- A value whose normal form spells a path without its leading separator denotes it,
plain or not. -/
theorem denotes_of_normalForm_eq
    (h : normalForm value = (dropSeparator path).map canonical) : Denotes path value := by
  obtain ⟨w₁, w₂, hvalue, h₁, h₂⟩ := Text.exists_append_trim value
  obtain ⟨s, hs, htrim⟩ := exists_append_dropSeparator (Text.trim value)
  refine ⟨w₁, s, dropSeparator (Text.trim value), w₂, ?_, h₁, h₂, hs, ?_⟩
  · rw [List.append_assoc w₁, ← htrim]
    exact hvalue
  · exact map_canonical_eq_iff.1 h.symm

/-- What has the same canonical form as a bare text is bare. -/
theorem IsBare.of_map_canonical_eq {x y : List Char} (hx : IsBare x)
    (h : x.map canonical = y.map canonical) : IsBare y := by
  have hhead := congrArg List.head? h
  have hlast := congrArg List.getLast? h
  simp only [List.head?_map, List.getLast?_map] at hhead hlast
  -- a character of the one text has the class of its counterpart in the other
  have hfind : ∀ {o o' : Option Char}, o.map canonical = o'.map canonical →
      ∀ c ∈ o', ∃ d ∈ o, canonical d = canonical c := by
    rintro o o' ho c hc
    rw [Option.mem_def.1 hc, Option.map_some, Option.map_eq_some_iff] at ho
    obtain ⟨d, hd, hdc⟩ := ho
    exact ⟨d, hd, hdc⟩
  refine ⟨⟨fun c hc => ?_, fun c hc => ?_⟩, fun c hc => ?_⟩
  · obtain ⟨d, hd, hdc⟩ := hfind hhead c hc
    rw [← isBlank_canonical, ← hdc, isBlank_canonical]
    exact hx.head d hd
  · obtain ⟨d, hd, hdc⟩ := hfind hlast c hc
    rw [← isBlank_canonical, ← hdc, isBlank_canonical]
    exact hx.last d hd
  · obtain ⟨d, hd, hdc⟩ := hfind hhead c hc
    rw [← isSeparator_canonical, ← hdc, isSeparator_canonical]
    exact hx.head_separator d hd

/-- **The normal form of a bare text** with padding and a separator is the text. -/
theorem normalForm_append {w₁ w₂ : List Char} (h₁ : Text.IsBlanks w₁) (h₂ : Text.IsBlanks w₂)
    (hs : MaybeSeparator s) (ht : IsBare t) :
    normalForm (w₁ ++ s ++ t ++ w₂) = t.map canonical := by
  have hst := isTrimmed_append hs ht.toIsTrimmed
  rw [normalForm, List.append_assoc w₁ s t, Text.trim_append hst h₁ h₂,
    dropSeparator_append hs ht.head_separator]

theorem IsPlain.normalForm_eq (hp : IsPlain path) :
    normalForm path = (dropSeparator path).map canonical := by
  obtain ⟨s, hs, hpath⟩ := exists_append_dropSeparator path
  have h := normalForm_append Text.isBlanks_nil Text.isBlanks_nil hs hp
  simpa [← hpath] using h

/-- **A plain path is denoted by the values with its normal form**, and by no other. -/
theorem IsPlain.denotes_iff (hp : IsPlain path) :
    Denotes path value ↔ normalForm value = normalForm path := by
  rw [hp.normalForm_eq]
  refine ⟨?_, denotes_of_normalForm_eq⟩
  rintro ⟨w₁, s, body, w₂, rfl, h₁, h₂, hs, hbody⟩
  have hcanonical := map_canonical_eq_iff.2 hbody
  rw [normalForm_append h₁ h₂ hs (hp.of_map_canonical_eq hcanonical), hcanonical]

/-! ### Paths that are not plain -/

theorem Denotes.length_le (h : Denotes path value) :
    (dropSeparator path).length ≤ value.length := by
  obtain ⟨w₁, s, body, w₂, rfl, -, -, -, hbody⟩ := h
  have := hbody.length_eq
  simp only [List.length_append]
  omega

/-- A path is denoted by what it is without its leading separator. -/
theorem denotes_dropSeparator (path : List Char) : Denotes path (dropSeparator path) :=
  ⟨[], [], dropSeparator path, [], by simp, by simp, by simp, .inl rfl,
    List.forall₂_same.2 fun c _ => agrees_refl c⟩

/-- A text that loses nothing to its normal form is bare. -/
theorem isBare_of_length_le (h : t.length ≤ (normalForm t).length) : IsBare t := by
  have hle := length_normalForm_le t
  have ht := Text.isTrimmed_of_length_le (h.trans hle)
  refine ⟨ht, fun c hc => ?_⟩
  rw [normalForm, ht.trim_eq, List.length_map] at h
  cases t with
  | nil => cases hc
  | cons d t =>
    obtain rfl : d = c := by simpa using hc
    by_contra hd
    rw [Bool.not_eq_false] at hd
    simp only [dropSeparator, hd, if_true, List.length_cons] at h
    omega

/-- **Only plain paths can be compared**: if the values that denote a path are those
with its normal form, the path is plain. -/
theorem isPlain_of_denotes_iff
    (h : ∀ value, Denotes path value ↔ normalForm value = normalForm path) : IsPlain path := by
  cases path with
  | nil => exact isBare_of_length_le (Nat.zero_le _)
  | cons d t =>
    by_cases hd : isSeparator d = true
    · -- behind a separator: the rest denotes the path, and so it does without its last blanks
      have hdrop : dropSeparator (d :: t) = t := if_pos hd
      have ht : normalForm t = normalForm (d :: t) := by
        rw [← h t]
        simpa only [hdrop] using denotes_dropSeparator (d :: t)
      obtain ⟨e, w, rfl, hw, htrim⟩ := Text.exists_trim_cons (isBlank_of_isSeparator hd) t
      have he : Denotes (d :: (e ++ w)) e := by
        rw [h e, ← ht, normalForm, normalForm, Text.trim_append_blanks e hw]
      have hlength := he.length_le
      rw [hdrop, List.length_append] at hlength
      obtain rfl : w = [] := List.eq_nil_of_length_eq_zero (by omega)
      -- the normal form has taken nothing but the separator from the path
      rw [IsPlain, hdrop]
      refine isBare_of_length_le ?_
      rw [ht, normalForm, htrim, List.length_map, dropSeparator, if_pos hd, List.append_nil]
    · -- the path without the blanks around it is too short, if there are any
      have hdrop : dropSeparator (d :: t) = d :: t := if_neg hd
      have htrim : Denotes (d :: t) (Text.trim (d :: t)) :=
        (h _).2 (normalForm_trim (d :: t))
      have hlength := htrim.length_le
      rw [hdrop] at hlength
      rw [IsPlain, hdrop]
      refine ⟨Text.isTrimmed_of_length_le hlength, fun c hc => ?_⟩
      obtain rfl : d = c := by simpa using hc
      exact Bool.not_eq_true _ ▸ hd

end NormalForms

/-! ### Rules -/

namespace Rule

/-- **A rule compares normal forms exactly if its path is plain.** For a plain path, the
values that the rule accepts are those whose normal form is that of the path; for any
other path there is a value on which the two differ. -/
theorem isPlain_iff_accepts_iff_normalForm_eq (r : Rule) :
    IsPlain r.path.toList ↔
      ∀ value : String,
        (r.accepts value = true ↔ normalForm value.toList = normalForm r.path.toList) := by
  have haccepts : ∀ value : String,
      r.accepts value = true ↔ Denotes r.path.toList value.toList :=
    PathPattern.accepts_iff_denotes r.path
  constructor
  · intro hp value
    rw [haccepts, hp.denotes_iff]
  · intro h
    refine isPlain_of_denotes_iff fun value => ?_
    have hv := h (String.ofList value)
    rwa [haccepts, String.toList_ofList] at hv

/-- Only the first separator may be missing from a value, and blanks count where the
path has them. -/
example : IsPlain "\\src/a.js".toList ∧ ¬IsPlain "//a.js".toList ∧ ¬IsPlain "/ a.js".toList ∧
    ¬IsPlain "a.js\t".toList := by decide

end Rule

end Relink
