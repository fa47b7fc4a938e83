import Mathlib.Data.List.Find
import Mathlib.Data.List.Nodup
import Mathlib.Data.List.Perm.Subperm
import Relink.Proofs.PlainPath
import Relink.Relinker

/-!
# Plain manifests

The order of a manifest is the order in which its paths are tried, and two manifests
that agree as maps may differ in it. Here it is shown that this makes no difference
where all paths are plain and no two of them have the same normal form
(`Manifest.find?_of_isPlain`).

A plain path is denoted exactly by the values with its normal form, so the first entry
whose path a value denotes is the first one whose path has the normal form of the value.
If no two paths share a normal form there is at most one such entry, and then it does
not matter where it stands. In particular it is the entry itself that its own path
selects: no rule is hidden by an earlier one.

What relinking does to a tree depends on a rulebook through `Rulebook.find?` alone
(`Relinking.tree_congr`), so it is the same for both manifests.
-/

namespace Relink

/-! ### Agreeing entries -/

namespace Entries

variable {α : Type} [BEq α] [LawfulBEq α] {es fs : Entries α}

/-- Entries that agree as maps are the same up to their order. -/
theorem perm_of_agree (hes : (keys es).Nodup) (h : agree es fs = true) : es.Perm fs := by
  obtain ⟨hlength, hall⟩ := Bool.and_eq_true_iff.1 h
  have hsub : es ⊆ fs := fun e he => by
    have hget := List.all_eq_true.1 hall e he
    exact mem_of_get? (beq_iff_eq.1 hget)
  have hlength : fs.length ≤ es.length := (beq_iff_eq.1 hlength).ge
  exact (List.Nodup.of_map Prod.fst hes).subperm hsub |>.perm_of_length_le hlength

end Entries

/-! ### What relinking knows of a rulebook -/

namespace Relinking

variable {b b' : Rulebook}

/-- **Relinking depends on a rulebook only through what is found in it.** -/
theorem tree_congr (h : ∀ value, b.find? value = b'.find? value) (scope : Scope) {T : Type}
    [Walkable T] (t : T) : tree b scope t = tree b' scope t := by
  have hrelink : ∀ s name, StartTag.relink b s name = StartTag.relink b' s name := by
    intro s name
    simp only [StartTag.relink, h]
  have hlisted : ∀ s p name, listed b s p name = listed b' s p name := by
    intro s p name
    simp only [listed, hrelink]
  have hall : ∀ names s p, allListed b names s p = allListed b' names s p := by
    intro names
    induction names with
    | nil => intro s p; rfl
    | cons name names ih => intro s p; simp only [allListed, hlisted, ih]
  have hvisitor : visitor b scope = visitor b' scope := by
    funext s p
    simp only [visitor, hall]
  rw [tree, tree, hvisitor]

end Relinking

namespace Rulebook

/-- A manifest has rules exactly if all of its patterns fit. -/
theorem exists_ofManifest_iff {m : Manifest} :
    (∃ b, ofManifest m = .ok b) ↔ ∀ e ∈ m.entries, (PathPattern.ofPath e.1).Fits := by
  constructor
  · rintro ⟨b, hb⟩ e he
    -- the rule of the entry has a pattern that fits, and it is the pattern of the path
    have hmem : (e.1, Action.ofReplacement e.2) ∈ b.rules.map fun r => (r.path, r.action) := by
      rw [ofManifest_eq_ok_iff.1 hb]
      exact List.mem_map_of_mem he
    obtain ⟨r, -, hr⟩ := List.mem_map.1 hmem
    exact (Prod.mk.inj hr).1 ▸ r.fits
  · intro h
    refine ⟨⟨m.entries.pmap (fun e he => ⟨e.1, .ofReplacement e.2, he⟩) h⟩, ?_⟩
    simp only [ofManifest_eq_ok_iff, List.map_pmap, List.pmap_eq_map]

/-- A rule is settled by its path and its action. -/
theorem eq_of_map_eq {o o' : Option Rule}
    (h : o.map (fun r => (r.path, r.action)) = o'.map fun r => (r.path, r.action)) : o = o' := by
  refine Option.map_injective ?_ h
  rintro ⟨path, action, _⟩ ⟨path', action', _⟩ h
  obtain ⟨rfl, rfl⟩ := Prod.mk.inj h
  rfl

end Rulebook

/-! ### Manifests of plain paths -/

namespace Manifest

/-- All paths of the manifest are plain. -/
def IsPlain (m : Manifest) : Prop := ∀ e ∈ m.entries, Relink.IsPlain e.1.toList

/-- No two paths of the manifest have the same normal form. -/
def IsSeparated (m : Manifest) : Prop := (m.entries.map fun e => normalForm e.1.toList).Nodup

instance (m : Manifest) : Decidable m.IsPlain :=
  inferInstanceAs (Decidable (∀ e ∈ m.entries, Relink.IsPlain e.1.toList))

instance (m : Manifest) : Decidable m.IsSeparated := inferInstanceAs (Decidable (List.Nodup _))

/-- The path of an entry has the normal form of the value. -/
def isAlike (value : String) (e : String × Option String) : Bool :=
  normalForm e.1.toList == normalForm value.toList

/-- The first entry whose path has the normal form of the value. -/
def firstAlike? (m : Manifest) (value : String) : Option (String × Option String) :=
  m.entries.find? (isAlike value)

variable {m m' : Manifest} {b b' : Rulebook}

theorem first?_eq_firstAlike? (hp : m.IsPlain) (value : String) :
    m.first? value = m.firstAlike? value := by
  refine List.find?_congr fun e he => ?_
  rw [Bool.eq_iff_iff, isAlike, beq_iff_eq, PathPattern.accepts_iff_denotes,
    (hp e he).denotes_iff, eq_comm]

/-- What is found for a value is the rule of the first entry that is alike. -/
theorem find?_eq_firstAlike? (hm : Rulebook.ofManifest m = .ok b) (hp : m.IsPlain)
    (value : String) :
    (b.find? value).map (fun r => (r.path, r.action)) =
      (m.firstAlike? value).map fun e => (e.1, .ofReplacement e.2) := by
  rw [Rulebook.find?_ofManifest hm, first?_eq_firstAlike? hp]

/-- Where no two paths are alike, a value is like one of them at most. -/
theorem IsSeparated.subsingleton (hs : m.IsSeparated) (value : String) :
    {e ∈ m.entries | isAlike value e}.Subsingleton := by
  rintro e ⟨he, h⟩ e' ⟨he', h'⟩
  exact List.inj_on_of_nodup_map hs he he' ((beq_iff_eq.1 h).trans (beq_iff_eq.1 h').symm)

/-- Where no two paths are alike, each selects its own entry. -/
theorem firstAlike?_self (hs : m.IsSeparated) {e : String × Option String}
    (he : e ∈ m.entries) : m.firstAlike? e.1 = some e := by
  have hself : isAlike e.1 e = true := beq_self_eq_true _
  obtain ⟨e', hfirst⟩ := Option.isSome_iff_exists.1 (List.find?_isSome.2 ⟨e, he, hself⟩)
  have he' := List.mem_of_find?_eq_some hfirst
  rw [firstAlike?, hfirst, hs.subsingleton e.1 ⟨he', List.find?_some hfirst⟩ ⟨he, hself⟩]

/-- Where no two paths are alike, the order of the entries does not matter. -/
theorem firstAlike?_eq_of_perm (hs : m.IsSeparated) (h : m.entries.Perm m'.entries)
    (value : String) : m.firstAlike? value = m'.firstAlike? value :=
  List.find?_eq_find?_of_perm h (hs.subsingleton value)

/-- Two plain manifests that agree find the same, if no two paths are alike. -/
theorem find?_eq_of_perm (hm : Rulebook.ofManifest m = .ok b) (hm' : Rulebook.ofManifest m' = .ok b')
    (hp : m.IsPlain) (hs : m.IsSeparated) (h : m.entries.Perm m'.entries) (value : String) :
    b.find? value = b'.find? value := by
  have hp' : m'.IsPlain := fun e he => hp e (h.mem_iff.2 he)
  apply Rulebook.eq_of_map_eq
  rw [find?_eq_firstAlike? hm hp, find?_eq_firstAlike? hm' hp', firstAlike?_eq_of_perm hs h]

/-- **Plain manifests are compared by normal forms, in no particular order.** What is
found for a value is the rule of the first entry whose path has the normal form of the
value. If no two paths are alike, then each path selects its own entry, and every
manifest that agrees with this one – in whatever order – has rules that find the same
for every value and relink every tree alike. -/
theorem find?_of_isPlain (m : Manifest) (b : Rulebook) (hm : Rulebook.ofManifest m = .ok b)
    (hp : m.IsPlain) :
    (∀ value, (b.find? value).map (fun r => (r.path, r.action)) =
      (m.firstAlike? value).map fun e => (e.1, .ofReplacement e.2)) ∧
    (m.IsSeparated →
      (∀ e ∈ m.entries, (b.find? e.1).map (fun r => (r.path, r.action)) =
        some (e.1, .ofReplacement e.2)) ∧
      ∀ m', m.agree m' = true → ∃ b', Rulebook.ofManifest m' = .ok b' ∧
        (∀ value, b.find? value = b'.find? value) ∧
        ∀ (files files' : FileSystem) (r r' : Relinker), r.scope = r'.scope →
          (r.load files).value = .ok b → (r'.load files').value = .ok b' →
          ∀ {T : Type} [Walkable T] (t : T),
            (r.transform files t).value.1 = (r'.transform files' t).value.1) := by
  refine ⟨find?_eq_firstAlike? hm hp, fun hs => ⟨fun e he => ?_, fun m' hagree => ?_⟩⟩
  · rw [find?_eq_firstAlike? hm hp, firstAlike?_self hs he, Option.map_some]
  · have hperm : m.entries.Perm m'.entries := Entries.perm_of_agree m.nodup hagree
    obtain ⟨b', hm'⟩ : ∃ b', Rulebook.ofManifest m' = .ok b' := by
      rw [Rulebook.exists_ofManifest_iff]
      exact fun e he => Rulebook.exists_ofManifest_iff.1 ⟨b, hm⟩ e (hperm.mem_iff.2 he)
    have hfind := find?_eq_of_perm hm hm' hp hs hperm
    refine ⟨b', hm', hfind, fun files files' r r' hscope hr hr' T _ t => ?_⟩
    rw [Relinker.transform_of_load_ok t hr, Relinker.transform_of_load_ok t hr', hscope,
      Relinking.tree_congr hfind]

/-- A manifest of two plain paths. -/
def scriptAndStyle : Manifest :=
  Table.ofList [("src/a.js", some "a.1.js"), ("\\css\\a.css", none)]

/-- The same entries the other way round. -/
def styleAndScript : Manifest :=
  Table.ofList [("\\css\\a.css", none), ("src/a.js", some "a.1.js")]

/-- Two manifests in different orders, and a value that the second path of the one and
the first path of the other stand for. -/
theorem find?_of_isPlain_reordered :
    ∃ b b', Rulebook.ofManifest scriptAndStyle = .ok b ∧ scriptAndStyle.IsPlain ∧
      scriptAndStyle.IsSeparated ∧ scriptAndStyle.agree styleAndScript = true ∧
      scriptAndStyle ≠ styleAndScript ∧ Rulebook.ofManifest styleAndScript = .ok b' ∧
      (b.find? " css/a.css").map (fun r => (r.path, r.action)) =
        some ("\\css\\a.css", .remove) ∧
      b'.find? " css/a.css" = b.find? " css/a.css" ∧
      (b.find? "src/a.js").map (fun r => (r.path, r.action)) =
        some ("src/a.js", .replace "a.1.js") ∧
      ∀ d : Document,
        ((Relinker.ofSettings ⟨Scope.standard, .inline scriptAndStyle⟩).transform
          FileSystem.empty d).value.1 =
        ((Relinker.ofSettings ⟨Scope.standard, .inline styleAndScript⟩).transform
          FileSystem.empty d).value.1 := by
  have hfits : ∀ e ∈ scriptAndStyle.entries, (PathPattern.ofPath e.1).Fits := by decide
  obtain ⟨b, hb⟩ := Rulebook.exists_ofManifest_iff.2 hfits
  have hplain : scriptAndStyle.IsPlain := by decide
  have hseparated : scriptAndStyle.IsSeparated := by decide
  have hagree : scriptAndStyle.agree styleAndScript = true := by decide
  obtain ⟨hfirst, hsame⟩ := find?_of_isPlain scriptAndStyle b hb hplain
  obtain ⟨hself, hother⟩ := hsame hseparated
  obtain ⟨b', hb', hfind, htransform⟩ := hother styleAndScript hagree
  refine ⟨b, b', hb, hplain, hseparated, hagree, by decide, hb', ?_, (hfind _).symm, ?_, ?_⟩
  · rw [hfirst]
    decide
  · exact hself ("src/a.js", some "a.1.js") (by decide)
  · have hload := Relinker.value_load_ofSettings_inline FileSystem.empty Scope.standard
    exact htransform FileSystem.empty FileSystem.empty
      (.ofSettings ⟨Scope.standard, .inline scriptAndStyle⟩)
      (.ofSettings ⟨Scope.standard, .inline styleAndScript⟩) rfl ((hload _).trans hb)
      ((hload _).trans hb')

end Manifest

end Relink
