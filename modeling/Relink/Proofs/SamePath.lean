import Mathlib.Tactic.TFAE
import Relink.Proofs.PlainPath
import Relink.Rulebook

/-!
# Paths that are the same to a rule

Two paths can be written differently and make the same rule: one has a separator in front
and the other has none, or they separate their parts differently. This is all the freedom
there is. Spelled with slashes, and without the separator that it may begin with, a path
is settled by the pattern that is printed for it, and also by the values that its rule
accepts (`Rule.slashed_eq_tfae`).

From the printed pattern the path is recovered by reading (`PathPattern.text_injective`):
no two atoms print alike, and nothing that is printed for one path could be taken for
something that is printed for another.

From the values it is recovered although padding blurs it, and for paths that are not
plain as well. The values themselves may be cut in several ways, but not the shortest
ones: a value that is no longer than the path has no room for padding, so it agrees with
the path position by position (`Denotes.agrees_of_length_le`).

In a rulebook, a rule whose path is the same as that of an earlier rule is never the first
to accept a value.
-/

namespace Relink

/-! ### Printed patterns -/

theorem Regex.sequenceAll_injective : Function.Injective Regex.sequenceAll := by
  intro es fs h
  induction es generalizing fs with
  | nil =>
    cases fs with
    | nil => rfl
    | cons f fs => cases h
  | cons e es ih =>
    cases fs with
    | nil => cases h
    | cons f fs =>
      obtain ⟨rfl, hrest⟩ := Regex.sequence.inj h
      rw [ih hrest]

theorem Atom.regex_injective : Function.Injective Atom.regex := by
  intro a a' h
  cases a with
  | separator =>
    cases a' with
    | separator => rfl
    | literal c => cases h
  | literal c =>
    cases a' with
    | separator => cases h
    | literal c' => rw [Regex.literal.inj h]

namespace PathPattern

theorem regex_injective : Function.Injective regex := by
  intro p q h
  have hatoms : p.atoms.map Atom.regex = q.atoms.map Atom.regex := by
    -- the padding is the same on both sides
    simpa using Regex.sequenceAll_injective h
  cases p
  cases q
  exact congrArg mk (List.map_injective_iff.2 Atom.regex_injective hatoms)

/-- **A pattern is settled by what is printed for it.** -/
theorem text_injective : Function.Injective text := by
  intro p q h
  apply regex_injective
  have hparse : some p.regex = some q.regex := by rw [← parse_text, h, parse_text]
  exact Option.some.inj hparse

end PathPattern

/-! ### Paths spelled with slashes -/

/-- **A path spelled with slashes**: without the separator that it may begin with, and with
all other separators alike. -/
def slashed (path : List Char) : List Char := (PathPattern.dropSeparator path).map canonical

theorem Atom.ofChar_eq_iff {t c : Char} : ofChar t = ofChar c ↔ Agrees t c := by
  unfold ofChar Agrees
  cases ht : isSeparator t <;> cases hc : isSeparator c
  · simp [eq_comm]
  · have hne : c ≠ t := by
      rintro rfl
      rw [hc] at ht
      cases ht
    simp [hne]
  · simp
  · simp

/-- The pattern of a path keeps of the path what is spelled with slashes. -/
theorem PathPattern.ofPath_eq_iff {p q : String} :
    ofPath p = ofPath q ↔ slashed p.toList = slashed q.toList := by
  rw [slashed, slashed, map_canonical_eq_iff, ofPath, ofPath, mk.injEq]
  simp only [← List.forall₂_eq_eq_eq, List.forall₂_map_left_iff, List.forall₂_map_right_iff,
    Atom.ofChar_eq_iff]

section Denoting

variable {path value p q : List Char}

/-- There is no padding in a value that is not longer than the path. -/
theorem Denotes.agrees_of_length_le (h : Denotes path value)
    (hlength : value.length ≤ (PathPattern.dropSeparator path).length) :
    List.Forall₂ Agrees (PathPattern.dropSeparator path) value := by
  obtain ⟨w₁, s, body, w₂, rfl, -, -, -, hbody⟩ := h
  have hsame := hbody.length_eq
  simp only [List.length_append] at hlength
  obtain rfl : w₁ = [] := List.eq_nil_of_length_eq_zero (by omega)
  obtain rfl : s = [] := List.eq_nil_of_length_eq_zero (by omega)
  obtain rfl : w₂ = [] := List.eq_nil_of_length_eq_zero (by omega)
  simpa using hbody

/-- **A path is settled by the values that denote it**, up to its separators: each of two
such paths denotes the other, and neither is longer. -/
theorem slashed_eq_of_denotes_iff (h : ∀ value, Denotes p value ↔ Denotes q value) :
    slashed p = slashed q := by
  have hp : Denotes q (PathPattern.dropSeparator p) := (h _).1 (denotes_dropSeparator p)
  have hq : Denotes p (PathPattern.dropSeparator q) := (h _).2 (denotes_dropSeparator q)
  exact map_canonical_eq_iff.2 (hq.agrees_of_length_le hp.length_le)

end Denoting

/-! ### Rules -/

namespace Rulebook

variable {m : Manifest} {b : Rulebook} {before after : List Rule} {r r' : Rule}

/-- No two rules of a manifest have the same path. -/
theorem nodup_paths (hb : ofManifest m = .ok b) : (b.rules.map Rule.path).Nodup := by
  have hpaths := congrArg (List.map Prod.fst) (ofManifest_eq_ok_iff.1 hb)
  rw [List.map_map, List.map_map] at hpaths
  have hkeys : b.rules.map Rule.path = Entries.keys m.entries := hpaths
  rw [hkeys]
  exact m.nodup

/-- A rule is not found where an earlier one accepts all that it accepts. -/
theorem find?_ne_of_accepts (hb : ofManifest m = .ok b) (hrules : b.rules = before ++ r :: after)
    (hr' : r' ∈ before) (h : ∀ value, r.accepts value = true → r'.accepts value = true)
    (value : String) : b.find? value ≠ some r := by
  intro hfind
  have haccepts : r.accepts value = true := by simpa using List.find?_some hfind
  -- the first rule that accepts the value is among those before, and so this rule is as well
  have hsome : (before.find? (·.accepts value)).isSome :=
    List.find?_isSome.2 ⟨r', hr', h value haccepts⟩
  obtain ⟨x, hx⟩ := Option.isSome_iff_exists.1 hsome
  have hfirst : b.find? value = some x := by
    rw [find?, hrules, List.find?_append, hx, Option.some_or]
  obtain rfl : x = r := Option.some.inj (hfirst.symm.trans hfind)
  have hmem : x.path ∈ before.map Rule.path :=
    List.mem_map_of_mem (List.mem_of_find?_eq_some hx)
  have hnodup := nodup_paths hb
  rw [hrules, List.map_append, List.map_cons] at hnodup
  exact (List.nodup_append.1 hnodup).2.2 _ hmem _ List.mem_cons_self rfl

end Rulebook

namespace Rule

/-- **When two paths are the same to a rule.** For the rules of any two paths these come to
the same: their patterns print alike; they accept the same values; the paths are equal when
they are spelled with slashes. So in the rulebook of any manifest, a rule is found for no
value if the path of an earlier one is the same in this sense. -/
theorem slashed_eq_tfae :
    (∀ r r' : Rule, List.TFAE [
      r.pattern.text = r'.pattern.text,
      ∀ value, r.accepts value = true ↔ r'.accepts value = true,
      slashed r.path.toList = slashed r'.path.toList]) ∧
    ∀ m b, Rulebook.ofManifest m = .ok b →
      ∀ before r after, b.rules = before ++ r :: after →
        (∃ r' ∈ before, slashed r'.path.toList = slashed r.path.toList) →
          ∀ value, b.find? value ≠ some r := by
  have haccepts (r : Rule) (value : String) :
      r.accepts value = true ↔ Denotes r.path.toList value.toList :=
    PathPattern.accepts_iff_denotes r.path value
  have htfae (r r' : Rule) : List.TFAE [
      r.pattern.text = r'.pattern.text,
      ∀ value, r.accepts value = true ↔ r'.accepts value = true,
      slashed r.path.toList = slashed r'.path.toList] := by
    tfae_have 1 → 2 := by
      intro htext value
      rw [accepts, accepts, PathPattern.text_injective htext]
    tfae_have 2 → 3 := by
      intro h
      refine slashed_eq_of_denotes_iff fun value => ?_
      have hvalue := h (String.ofList value)
      rwa [haccepts, haccepts, String.toList_ofList] at hvalue
    tfae_have 3 → 1 := by
      intro h
      rw [pattern, pattern, PathPattern.ofPath_eq_iff.2 h]
    tfae_finish
  refine ⟨htfae, ?_⟩
  intro m b hb before r after hrules hearlier
  obtain ⟨r', hr', h⟩ := hearlier
  have hsame := ((htfae r' r).out 2 1).1 h
  exact Rulebook.find?_ne_of_accepts hb hrules hr' fun value => (hsame value).2

/-- One path written in two ways, and a path that begins with a blank. -/
def respelled : Manifest :=
  Table.ofList [("a/b.js", some "first.js"), ("\\a\\b.js", some "second.js"), (" a/b.js", none)]

/-- The second rule of `respelled` is never found. The third is not the same as the first,
although there is a value that denotes both of their paths. -/
theorem slashed_eq_tfae_respelled :
    ∃ b r r' r'', Rulebook.ofManifest respelled = .ok b ∧ b.rules = [r, r', r''] ∧
      r.pattern.text = r'.pattern.text ∧ (∀ value, b.find? value ≠ some r') ∧
      r.pattern.text ≠ r''.pattern.text ∧ b.find? " a/b.js" = some r ∧
      r''.accepts " a/b.js" = true := by
  let r : Rule := ⟨"a/b.js", .replace "first.js", by decide⟩
  let r' : Rule := ⟨"\\a\\b.js", .replace "second.js", by decide⟩
  let r'' : Rule := ⟨" a/b.js", .remove, by decide⟩
  have hb : Rulebook.ofManifest respelled = .ok ⟨[r, r', r'']⟩ :=
    Rulebook.ofManifest_eq_ok_iff.2 (by decide)
  have hsame : slashed r.path.toList = slashed r'.path.toList := by decide
  have hother : slashed r.path.toList ≠ slashed r''.path.toList := by decide
  obtain ⟨htfae, hshadowed⟩ := slashed_eq_tfae
  refine ⟨_, r, r', r'', hb, rfl, ((htfae r r').out 0 2).2 hsame, ?_, ?_, by decide, by decide⟩
  · exact hshadowed respelled _ hb [r] r' [r''] rfl ⟨r, List.mem_singleton_self r, hsame⟩
  · exact fun htext => hother (((htfae r r'').out 0 2).1 htext)

end Rule

end Relink
