import Relink.PathPattern

/-!
# Where a pattern is placed in a value

`PathPattern.accepts` looks at one place of a value only, or searches for a text. Here
this is shown to find whatever trying every number of leading blanks would find
(`PathPattern.accepts_eq_acceptsPadded`). A character that is no blank cannot be
padding and cannot meet an atom that stands for a blank, so it fixes the place; and
among blanks an atom accepts a character just if it is its sample, so placing atoms
there is finding a text in a text.
-/

namespace Relink

theorem isSeparator_of_isBlank {c : Char} (h : Text.isBlank c = true) :
    isSeparator c = false := by
  cases hs : isSeparator c with
  | false => rfl
  | true =>
    simp only [isSeparator, Bool.or_eq_true, beq_iff_eq] at hs
    rcases hs with rfl | rfl <;> exact absurd h (by decide)

namespace Atom

/-- A blank is accepted by the atoms of which it is the sample. -/
theorem accepts_of_isBlank {a : Atom} {c : Char} (h : Text.isBlank c = true) :
    a.accepts c = (a.sample == c) := by
  cases a with
  | separator =>
    have hc : '/' ≠ c := by
      rintro rfl
      exact absurd h (by decide)
    simp [accepts, sample, isSeparator_of_isBlank h, hc]
  | literal d =>
    simp only [accepts, sample]
    exact Bool.beq_comm

/-- What is no blank is accepted by no atom that stands for one. -/
theorem accepts_eq_false {a : Atom} {c : Char} (ha : a.isBlank = true)
    (hc : Text.isBlank c = false) : a.accepts c = false := by
  cases a with
  | separator => exact absurd ha (by decide)
  | literal d =>
    simp only [accepts, beq_eq_false_iff_ne, ne_eq]
    rintro rfl
    simp only [isBlank, sample] at ha
    simp [ha] at hc

end Atom

namespace PathPattern

/-! ### Among blanks -/

theorem acceptsUnpadded_of_isBlank (as : List Atom) {c : Char} (v : List Char)
    (hc : Text.isBlank c = true) : acceptsUnpadded as (c :: v) = acceptsBody as (c :: v) := by
  simp [acceptsUnpadded, isSeparator_of_isBlank hc]

theorem acceptsBody_of_all_isBlank (as : List Atom) {v : List Char}
    (hv : v.all Text.isBlank = true) :
    acceptsBody as v = (as.map Atom.sample).isPrefixOf v := by
  induction as generalizing v with
  | nil => simp [acceptsBody, hv]
  | cons a as ih =>
    cases v with
    | nil => rfl
    | cons c v =>
      simp only [List.all_cons, Bool.and_eq_true] at hv
      rw [acceptsBody, Atom.accepts_of_isBlank hv.1, ih hv.2, List.map_cons,
        List.isPrefixOf_cons_cons]

/-- Padding all around leaves a pattern free to stand anywhere. -/
theorem acceptsPadded_of_all_isBlank (as : List Atom) {v : List Char}
    (hv : v.all Text.isBlank = true) :
    acceptsPadded as v = true ↔ as.map Atom.sample <:+: v := by
  induction v with
  | nil => simp [acceptsPadded, acceptsUnpadded, acceptsBody_of_all_isBlank as hv]
  | cons c v ih =>
    have hc := hv
    simp only [List.all_cons, Bool.and_eq_true] at hc
    rw [acceptsPadded, acceptsUnpadded_of_isBlank as v hc.1, acceptsBody_of_all_isBlank as hv,
      List.infix_cons_iff, ← ih hc.2]
    simp [hc.1]

/-! ### Before a character that is no blank -/

/-- Atoms that begin within blanks use up all of them. -/
theorem acceptsBody_append (as : List Atom) {w : List Char} {c : Char} (v : List Char)
    (hw : w.all Text.isBlank = true) (hc : Text.isBlank c = false) :
    acceptsBody as (w ++ c :: v) =
      ((as.takeWhile Atom.isBlank).map Atom.sample == w &&
        acceptsBody (as.dropWhile Atom.isBlank) (c :: v)) := by
  induction as generalizing w with
  | nil =>
    cases w with
    | nil => simp
    | cons b w => simp [acceptsBody, hc]
  | cons a as ih =>
    cases w with
    | nil =>
      by_cases ha : a.isBlank = true
      · simp [acceptsBody, ha, Atom.accepts_eq_false ha hc]
      · simp [ha]
    | cons b w =>
      simp only [List.all_cons, Bool.and_eq_true] at hw
      by_cases ha : a.isBlank = true
      · simp [acceptsBody, ha, Atom.accepts_of_isBlank hw.1, ih hw.2, Bool.and_assoc]
      · have hb : a.sample ≠ b := by
          rintro rfl
          exact ha hw.1
        simp [acceptsBody, ha, Atom.accepts_of_isBlank hw.1, hb]

/-- Only the place where the first character that is no blank meets the first atom
that stands for none, or a separator, has to be tried. -/
theorem acceptsPadded_append (as : List Atom) {w : List Char} {c : Char} (v : List Char)
    (hw : w.all Text.isBlank = true) (hc : Text.isBlank c = false) :
    acceptsPadded as (w ++ c :: v) =
      (acceptsAcross as w (c :: v) || (isSeparator c && acceptsBody as v)) := by
  induction w with
  | nil =>
    have h := acceptsBody_append as (w := []) v rfl hc
    rw [List.nil_append] at h ⊢
    rw [acceptsPadded, acceptsUnpadded, hc, Bool.false_and, Bool.or_false, h, acceptsAcross]
    cases (as.takeWhile Atom.isBlank).map Atom.sample <;> simp
  | cons b w ih =>
    have h := acceptsBody_append as (w := b :: w) v hw hc
    simp only [List.all_cons, Bool.and_eq_true] at hw
    rw [List.cons_append] at h ⊢
    rw [acceptsPadded, acceptsUnpadded_of_isBlank as _ hw.1, h, hw.1, Bool.true_and, ih hw.2,
      ← Bool.or_assoc, acceptsAcross, acceptsAcross, ← Bool.and_or_distrib_right]
    congr 2
    rw [Bool.eq_iff_iff, Bool.or_eq_true, beq_iff_eq, List.isSuffixOf_iff_suffix,
      List.isSuffixOf_iff_suffix, List.suffix_cons_iff]

/-- Matching finds a place if there is one. -/
theorem accepts_eq_acceptsPadded (p : PathPattern) (value : String) :
    p.accepts value = acceptsPadded p.atoms value.toList := by
  have hw : (value.toList.takeWhile Text.isBlank).all Text.isBlank = true :=
    List.all_takeWhile
  have hv : value.toList.takeWhile Text.isBlank ++ value.toList.dropWhile Text.isBlank =
      value.toList := List.takeWhile_append_dropWhile
  unfold accepts
  split
  next h =>
    rw [h, List.append_nil] at hv
    rw [hv] at hw
    rw [Bool.eq_iff_iff, acceptsPadded_of_all_isBlank _ hw, String.contains_string_iff,
      String.toList_ofList]
  next c v h =>
    have hc : Text.isBlank c = false := by
      have := List.head?_dropWhile_not Text.isBlank value.toList
      simpa [h] using this
    rw [h] at hv
    rw [← acceptsPadded_append p.atoms v hw hc, hv]

end PathPattern

end Relink
