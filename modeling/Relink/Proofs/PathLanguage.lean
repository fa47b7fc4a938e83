import Relink.PathPattern.Placement
import Relink.Proofs.Regex
import Relink.Rule

/-!
# The language of a path

A pattern has two faces: it is printed as a regular expression, and it is matched
against values. This file says what each of them comes to, for every path, and that
they come to the same.

Nothing that a path may hold spoils its printed pattern: what is printed can be read,
and reading gives back one expression for each character of the path
(`PathPattern.parse_text`). Whatever has a meaning in a regular expression stands
behind a backslash, and a class is only ever written out whole. So a path has no
rule only if its pattern is too large.

Matching, and the meaning of the printed expression, is that the value can be cut
into blanks, a separator that may be missing, a body that agrees with the path
character by character, and blanks again (`Denotes`). It is not said where to cut: a
path may itself begin or end with blanks, or begin with further separators, and then
the same value may be cut in several ways.
-/

namespace Relink

/-! ### Denoting a path -/

/-- **A character of a path agrees with a character of a value**: a separator with
either separator, any other character with itself. -/
def Agrees (t c : Char) : Prop := if isSeparator t then isSeparator c = true else c = t

/-- **A value denotes a path** if it can be cut into blanks, a separator or nothing, a
body that agrees with the path position by position, and blanks. -/
def Denotes (path value : List Char) : Prop :=
  ∃ w₁ s body w₂, value = w₁ ++ s ++ body ++ w₂ ∧
    (∀ c ∈ w₁, Text.isBlank c = true) ∧ (∀ c ∈ w₂, Text.isBlank c = true) ∧
    (s = [] ∨ ∃ c, isSeparator c = true ∧ s = [c]) ∧
    List.Forall₂ Agrees (PathPattern.dropSeparator path) body

namespace Atom

theorem accepts_ofChar_iff (t c : Char) : (ofChar t).accepts c = true ↔ Agrees t c := by
  unfold ofChar Agrees
  by_cases ht : isSeparator t = true
  · rw [if_pos ht, if_pos ht, accepts]
  · rw [if_neg ht, if_neg ht, accepts, beq_iff_eq]

/-! ### Reading printed atoms -/

/-- The expression that an atom is printed as. -/
def regex : Atom → Regex
  | .separator => .oneOf ['/', '\\']
  | .literal c => .literal c

/-- A character that is printed behind a backslash is literal there. -/
theorem isEscapable_of_isMeta {c : Char} (h : isMeta c = true) :
    Regex.isEscapable c = true ∧ c ≠ 's' := by
  simp only [isMeta, List.contains_iff_mem, List.mem_cons, List.not_mem_nil, or_false] at h
  rcases h with rfl | rfl | rfl | rfl | rfl | rfl | rfl | rfl | rfl | rfl | rfl | rfl | rfl | rfl |
    rfl | rfl | rfl | rfl <;> decide

/-- A character that is printed by itself has no other meaning. -/
theorem ne_of_isMeta_eq_false {c d : Char} (h : isMeta c = false) (hd : isMeta d = true) :
    c ≠ d := by
  rintro rfl
  rw [h] at hd
  cases hd

theorem isOperator_of_isMeta_eq_false {c : Char} (h : isMeta c = false) :
    Regex.isOperator c = false := by
  rw [Bool.eq_false_iff]
  intro ho
  simp only [Regex.isOperator, List.contains_iff_mem, List.mem_cons, List.not_mem_nil,
    or_false] at ho
  rcases ho with rfl | rfl | rfl | rfl | rfl | rfl | rfl | rfl | rfl | rfl | rfl | rfl | rfl | rfl <;>
    exact absurd h (by decide)

/-- **A printed atom is read back**, whatever follows it. -/
theorem read_text (a : Atom) (es : List Regex) (cs : List Char) :
    Regex.read .plain es (a.text ++ cs) = Regex.read .plain (a.regex :: es) cs := by
  cases a with
  | separator => simp [text, regex, Regex.read, Regex.isClassOperator, Regex.isEscapable]
  | literal c =>
    by_cases hm : isMeta c = true
    · obtain ⟨he, hs⟩ := isEscapable_of_isMeta hm
      simp [text, regex, hm, Regex.read, he, hs]
    · -- it is printed bare, and every branch of the reader but the last is closed to it
      rw [Bool.not_eq_true] at hm
      have ho := isOperator_of_isMeta_eq_false hm
      have hne : ∀ d, isMeta d = true → c ≠ d := fun d hd => ne_of_isMeta_eq_false hm hd
      simp [text, regex, hm, Regex.read, ho, hne '^' (by decide), hne '$' (by decide),
        hne '[' (by decide), hne '\\' (by decide), hne '*' (by decide), hne '?' (by decide)]

end Atom

namespace PathPattern

/-- The expression that a pattern is printed as. -/
def regex (p : PathPattern) : Regex :=
  Regex.sequenceAll (.atStart :: .many .blank :: .optional (.oneOf ['/', '\\']) ::
    p.atoms.map Atom.regex ++ [.many .blank, .atEnd])

theorem read_atoms (as : List Atom) (es : List Regex) (cs : List Char) :
    Regex.read .plain es (as.flatMap Atom.text ++ cs) =
      Regex.read .plain ((as.map Atom.regex).reverse ++ es) cs := by
  induction as generalizing es with
  | nil => rfl
  | cons a as ih =>
    rw [List.flatMap_cons, List.append_assoc, Atom.read_text, ih]
    simp

theorem read_opening (cs : List Char) :
    Regex.read .plain [] (opening ++ cs) =
      Regex.read .plain [.optional (.oneOf ['/', '\\']), .many .blank, .atStart] cs := by
  simp [opening, Regex.read, Regex.isClassOperator, Regex.isEscapable, Regex.isRepetition]

theorem read_closing (es : List Regex) :
    Regex.read .plain es closing = some (.atEnd :: .many .blank :: es) := by
  simp [closing, Regex.read, Regex.isRepetition]

/-- **Every printed pattern can be read**, and is read as one expression for each atom
between the padding. -/
theorem parse_text (p : PathPattern) : Regex.parse p.text.toList = some p.regex := by
  rw [Regex.parse, text, String.toList_ofList, List.append_assoc, read_opening, read_atoms,
    read_closing, Option.map_some, regex]
  simp

/-! ### Cutting a value up -/

/-- The atoms stand for the characters of a text, position by position. -/
def Spells (as : List Atom) (body : List Char) : Prop :=
  List.Forall₂ (fun a c => a.accepts c = true) as body

theorem spells_cons_iff {a : Atom} {as : List Atom} {body : List Char} :
    Spells (a :: as) body ↔ ∃ c cs, a.accepts c = true ∧ Spells as cs ∧ body = c :: cs :=
  List.forall₂_cons_left_iff

/-- A separator or nothing. -/
def MaybeSeparator (s : List Char) : Prop := s = [] ∨ ∃ c, isSeparator c = true ∧ s = [c]

theorem spells_atoms_iff (path : String) (body : List Char) :
    Spells (ofPath path).atoms body ↔
      List.Forall₂ Agrees (dropSeparator path.toList) body := by
  simp only [Spells, ofPath, List.forall₂_map_left_iff, Atom.accepts_ofChar_iff]

theorem acceptsBody_iff {as : List Atom} {v : List Char} :
    acceptsBody as v = true ↔
      ∃ body w₂, v = body ++ w₂ ∧ Spells as body ∧ ∀ c ∈ w₂, Text.isBlank c = true := by
  induction as generalizing v with
  | nil => simp [acceptsBody, Spells]
  | cons a as ih =>
    cases v with
    | nil =>
      -- an atom is left, and no character for it
      simp only [acceptsBody, Bool.false_eq_true, false_iff]
      rintro ⟨body, w₂, hv, hs, -⟩
      obtain ⟨c, cs, -, -, rfl⟩ := spells_cons_iff.1 hs
      cases hv
    | cons c v =>
      rw [acceptsBody, Bool.and_eq_true, ih]
      constructor
      · rintro ⟨hc, body, w₂, rfl, hs, hw⟩
        exact ⟨c :: body, w₂, rfl, spells_cons_iff.2 ⟨c, body, hc, hs, rfl⟩, hw⟩
      · rintro ⟨_, w₂, hv, hs, hw⟩
        obtain ⟨d, body, hd, hs', rfl⟩ := spells_cons_iff.1 hs
        obtain ⟨rfl, rfl⟩ := List.cons.inj hv
        exact ⟨hd, body, w₂, rfl, hs', hw⟩

theorem acceptsUnpadded_iff {as : List Atom} {v : List Char} :
    acceptsUnpadded as v = true ↔
      ∃ s body w₂, v = s ++ body ++ w₂ ∧ MaybeSeparator s ∧ Spells as body ∧
        ∀ c ∈ w₂, Text.isBlank c = true := by
  unfold acceptsUnpadded
  rw [Bool.or_eq_true, acceptsBody_iff]
  constructor
  · rintro (⟨body, w₂, rfl, hs, hw⟩ | h)
    · exact ⟨[], body, w₂, rfl, Or.inl rfl, hs, hw⟩
    · cases v with
      | nil => cases h
      | cons c v =>
        obtain ⟨hc, hb⟩ := Bool.and_eq_true_iff.1 h
        obtain ⟨body, w₂, rfl, hs, hw⟩ := acceptsBody_iff.1 hb
        exact ⟨[c], body, w₂, rfl, Or.inr ⟨c, hc, rfl⟩, hs, hw⟩
  · rintro ⟨_, body, w₂, rfl, rfl | ⟨c, hc, rfl⟩, hs, hw⟩
    · exact Or.inl ⟨body, w₂, rfl, hs, hw⟩
    · exact Or.inr (Bool.and_eq_true_iff.2 ⟨hc, acceptsBody_iff.2 ⟨body, w₂, rfl, hs, hw⟩⟩)

theorem acceptsPadded_iff {as : List Atom} {v : List Char} :
    acceptsPadded as v = true ↔
      ∃ w₁ s body w₂, v = w₁ ++ s ++ body ++ w₂ ∧ (∀ c ∈ w₁, Text.isBlank c = true) ∧
        (∀ c ∈ w₂, Text.isBlank c = true) ∧ MaybeSeparator s ∧ Spells as body := by
  -- the induction takes one blank after the other off the padding
  induction v with
  | nil =>
    rw [acceptsPadded, acceptsUnpadded_iff]
    constructor
    · rintro ⟨s, body, w₂, hv, hm, hs, hw⟩
      exact ⟨[], s, body, w₂, hv, by simp, hw, hm, hs⟩
    · rintro ⟨w₁, s, body, w₂, hv, -, hw, hm, hs⟩
      have hw₁ : w₁ = [] := by
        have := congrArg List.length hv
        simp only [List.length_nil, List.length_append] at this
        exact List.eq_nil_of_length_eq_zero (by omega)
      subst hw₁
      exact ⟨s, body, w₂, hv, hm, hs, hw⟩
  | cons c v ih =>
    rw [acceptsPadded, Bool.or_eq_true, Bool.and_eq_true, acceptsUnpadded_iff, ih]
    constructor
    · rintro (⟨s, body, w₂, hv, hm, hs, hw⟩ | ⟨hc, w₁, s, body, w₂, rfl, hw₁, hw, hm, hs⟩)
      · exact ⟨[], s, body, w₂, hv, by simp, hw, hm, hs⟩
      · refine ⟨c :: w₁, s, body, w₂, rfl, ?_, hw, hm, hs⟩
        intro d hd
        rcases List.mem_cons.1 hd with rfl | hd
        · exact hc
        · exact hw₁ d hd
    · rintro ⟨_ | ⟨d, w₁⟩, s, body, w₂, hv, hw₁, hw, hm, hs⟩
      · exact Or.inl ⟨s, body, w₂, hv, hm, hs, hw⟩
      · obtain ⟨rfl, rfl⟩ := List.cons.inj hv
        exact Or.inr ⟨hw₁ c List.mem_cons_self, w₁, s, body, w₂, rfl,
          fun d hd => hw₁ d (List.mem_cons_of_mem _ hd), hw, hm, hs⟩

/-- **Matching is denoting.** -/
theorem accepts_iff_denotes (path value : String) :
    (ofPath path).accepts value = true ↔ Denotes path.toList value.toList := by
  simp only [accepts_eq_acceptsPadded, acceptsPadded_iff, spells_atoms_iff]
  exact Iff.rfl

/-! ### The printed expression -/

open Regex

theorem matches_separator_iff {u x w : List Char} :
    Matches (.optional (.oneOf ['/', '\\'])) u x w ↔ MaybeSeparator x := by
  rw [matches_optional_iff, matches_oneOf_iff, MaybeSeparator]
  simp [isSeparator]

theorem matches_atoms_iff {as : List Atom} {es : List Regex} {u x w : List Char} :
    Matches (sequenceAll (as.map Atom.regex ++ es)) u x w ↔
      ∃ body z, x = body ++ z ∧ Spells as body ∧ Matches (sequenceAll es) (u ++ body) z w := by
  induction as generalizing u x with
  | nil => simp [Spells]
  | cons a as ih =>
    -- an atom is one character wide, whatever stands around it
    have ha : ∀ u y w, Matches a.regex u y w ↔ ∃ c, a.accepts c = true ∧ y = [c] := by
      intro u y w
      cases a with
      | separator => simp [Atom.regex, matches_oneOf_iff, Atom.accepts, isSeparator]
      | literal d => simp [Atom.regex, matches_literal_iff, Atom.accepts]
    have hcons : sequenceAll ((a :: as).map Atom.regex ++ es) =
        .sequence a.regex (sequenceAll (as.map Atom.regex ++ es)) := rfl
    simp only [hcons, matches_sequence_iff, ha]
    constructor
    · rintro ⟨_, z, rfl, ⟨c, hc, rfl⟩, hz⟩
      obtain ⟨body, z, rfl, hs, he⟩ := ih.1 hz
      exact ⟨c :: body, z, rfl, spells_cons_iff.2 ⟨c, body, hc, hs, rfl⟩, by simpa using he⟩
    · rintro ⟨_, z, rfl, hs, he⟩
      obtain ⟨c, body, hc, hs', rfl⟩ := spells_cons_iff.1 hs
      exact ⟨[c], body ++ z, rfl, ⟨c, hc, rfl⟩, ih.2 ⟨body, z, rfl, hs', by simpa using he⟩⟩

/-- **What is printed means what is matched.** -/
theorem isMatch_regex_iff (p : PathPattern) (v : List Char) :
    p.regex.IsMatch v ↔ acceptsPadded p.atoms v = true := by
  have hpadding : ∀ {u x w}, Matches (sequenceAll [.many .blank, .atEnd]) u x w ↔
      (∀ c ∈ x, Text.isBlank c = true) ∧ w = [] := by
    intro u x w
    simp only [sequenceAll, List.foldr_cons, List.foldr_nil, matches_sequence_iff,
      matches_many_blank_iff, matches_atEnd_iff, matches_empty_iff]
    constructor
    · rintro ⟨y, z, rfl, hy, y', z', rfl, ⟨rfl, hw⟩, rfl⟩
      exact ⟨by simpa using hy, by simpa using hw⟩
    · rintro ⟨hx, rfl⟩
      exact ⟨x, [], by simp, hx, [], [], rfl, ⟨rfl, rfl⟩, rfl⟩
  rw [acceptsPadded_iff, regex, IsMatch]
  constructor
  · -- the anchors leave nothing before the span and nothing after it
    rintro ⟨u, x, w, rfl, h⟩
    obtain ⟨_, _, rfl, h₀, h⟩ := matches_sequence_iff.1 h
    obtain ⟨rfl, rfl⟩ := matches_atStart_iff.1 h₀
    obtain ⟨w₁, _, rfl, h₁, h⟩ := matches_sequence_iff.1 h
    obtain ⟨s, _, rfl, h₂, h⟩ := matches_sequence_iff.1 h
    obtain ⟨body, w₂, rfl, h₃, h⟩ := matches_atoms_iff.1 h
    obtain ⟨h₄, rfl⟩ := hpadding.1 h
    exact ⟨w₁, s, body, w₂, by simp, matches_many_blank_iff.1 h₁, h₄,
      matches_separator_iff.1 h₂, h₃⟩
  · rintro ⟨w₁, s, body, w₂, rfl, h₁, h₄, h₂, h₃⟩
    refine ⟨[], w₁ ++ (s ++ (body ++ w₂)), [], by simp, ?_⟩
    refine matches_sequence_iff.2 ⟨[], _, rfl, .atStart _, ?_⟩
    refine matches_sequence_iff.2 ⟨w₁, _, rfl, matches_many_blank_iff.2 h₁, ?_⟩
    refine matches_sequence_iff.2 ⟨s, _, rfl, matches_separator_iff.2 h₂, ?_⟩
    exact matches_atoms_iff.2 ⟨body, w₂, rfl, h₃, hpadding.2 ⟨h₄, rfl⟩⟩

end PathPattern

namespace Rule

/-- **The pattern of a path is sound, and says what its rule accepts.** Whatever the
path, its printed pattern can be read as a regular expression, so only the size of
the pattern can keep the path from having a rule; and the rule accepts a value just
if the expression matches it, which is the case just if the value denotes the path. -/
theorem accepts_iff_isMatch_and_denotes (path : String) :
    ∃ e, Regex.parse (PathPattern.ofPath path).text.toList = some e ∧
      ∀ action,
        (ofPath? path action = none ↔
          PathPattern.sizeLimit < (PathPattern.ofPath path).size) ∧
        ∀ r, ofPath? path action = some r → ∀ value : String,
          (r.accepts value = true ↔ e.IsMatch value.toList) ∧
          (r.accepts value = true ↔ Denotes path.toList value.toList) := by
  refine ⟨(PathPattern.ofPath path).regex, PathPattern.parse_text _, fun action => ⟨?_, ?_⟩⟩
  · rw [ofPath?_eq_none_iff, PathPattern.Fits, Nat.not_le]
  · intro r hr value
    obtain ⟨rfl, -⟩ := ofPath?_eq_some_iff.1 hr
    refine ⟨?_, PathPattern.accepts_iff_denotes r.path value⟩
    rw [PathPattern.isMatch_regex_iff, ← PathPattern.accepts_eq_acceptsPadded]
    exact Iff.rfl

/-- A path with brackets, a leading separator and a blank at its end, and a value that
pads it and begins and separates with the other separator. -/
theorem accepts_iff_isMatch_and_denotes_brackets :
    ∃ e r, Regex.parse (PathPattern.ofPath "/[b]/c ").text.toList = some e ∧
      ofPath? "/[b]/c " .remove = some r ∧ r.accepts "\t\\[b]\\c  " = true ∧
      e.IsMatch "\t\\[b]\\c  ".toList ∧ Denotes "/[b]/c ".toList "\t\\[b]\\c  ".toList := by
  obtain ⟨r, hr⟩ := Option.isSome_iff_exists.1
    (show (ofPath? "/[b]/c " .remove).isSome = true by decide)
  obtain ⟨e, he, h⟩ := accepts_iff_isMatch_and_denotes "/[b]/c "
  obtain ⟨hm, hd⟩ := (h .remove).2 r hr "\t\\[b]\\c  "
  have ha : r.accepts "\t\\[b]\\c  " = true := by
    rw [accepts, pattern, (ofPath?_eq_some_iff.1 hr).1]
    decide
  exact ⟨e, r, he, hr, ha, hm.1 ha, hd.1 ha⟩

end Rule

end Relink
