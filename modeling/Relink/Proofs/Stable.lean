import Mathlib.Tactic.TFAE
import Relink.Proofs.PlainManifest
import Relink.Proofs.Simultaneous
import Relink.Proofs.Tour

/-!
# Relinking again

Within one visit, a new value is not matched again. But the contract of a tree lets an
element be visited twice, and a caller may relink a tree that has been relinked before;
then the new values are matched. Whether it shows depends on the rules alone. They are
*stable* (`Rulebook.Stable`) if no replacement denotes a path for which there is
something else than this replacement.

For an attribute, to be stable is to be settled by its first fate, and for start tags it
means that changing them a second time adds nothing (`Manifest.stable_iff_changed`). This
is what both a second call and a repeated visit come down to, and conversely, a single
element with one attribute tells the difference in either way
(`Relinker.stable_tfae`).
-/

namespace Relink

/-- **Stable rules**: where a value is replaced, the replacement is replaced by nothing
else and not removed, but is let be or replaced by itself. -/
def Rulebook.Stable (b : Rulebook) : Prop :=
  ∀ value rule r, value ≠ "" → b.find? value = some rule → rule.action = .replace r →
    b.find? r = none ∨ ∃ rule', b.find? r = some rule' ∧ rule'.action = .replace r

/-- The fate that an action brings. -/
def Fate.ofAction : Action → Fate
  | .replace r => .relinked r
  | .remove => .removed

namespace Manifest

variable {m : Manifest} {b : Rulebook}

/-! ### The second fate of an attribute -/

/-- The rules of a manifest replace nothing by the empty value. -/
theorem ne_empty_of_find? (hb : Rulebook.ofManifest m = .ok b) {value r : String} {rule : Rule}
    (hf : b.find? value = some rule) (hr : rule.action = .replace r) : r ≠ "" := by
  rintro rfl
  have hfirst := Rulebook.find?_ofManifest hb value
  rw [hf, Option.map_some, eq_comm, Option.map_eq_some_iff] at hfirst
  obtain ⟨e, -, he⟩ := hfirst
  exact Action.ofReplacement_ne_replace_empty e.2 ((Prod.mk.inj he).2.trans hr)

section Fates

variable {names : List String} {n v : String} {rule : Rule}

theorem fate_of_mem (hn : n ∈ names) : m.fate names (n, v) = m.fate [n] (n, v) := by
  simp [fate, hn]

theorem fate_of_find?_eq_none (hb : Rulebook.ofManifest m = .ok b) (hn : n ∈ names) (hv : v ≠ "")
    (hf : b.find? v = none) : m.fate names (n, v) = .kept := by
  rw [fate_of_mem hn, fate_of_find? hb hv, hf]

theorem fate_of_find?_eq_some (hb : Rulebook.ofManifest m = .ok b) (hn : n ∈ names) (hv : v ≠ "")
    (hf : b.find? v = some rule) :
    m.fate names (n, v) = .ofAction rule.action := by
  rw [fate_of_mem hn, fate_of_find? hb hv, hf]
  dsimp only
  cases rule.action <;> rfl

/-- Only a rule gives an attribute another value. -/
theorem fate_cases (hb : Rulebook.ofManifest m = .ok b) (names : List String) (n v : String) :
    m.fate names (n, v) = .kept ∨ m.fate names (n, v) = .removed ∨
      ∃ rule r, n ∈ names ∧ v ≠ "" ∧ b.find? v = some rule ∧ rule.action = .replace r ∧
        m.fate names (n, v) = .relinked r := by
  by_cases hlisted : n ∈ names ∧ v ≠ ""
  · obtain ⟨hn, hv⟩ := hlisted
    rcases hf : b.find? v with _ | rule
    · exact .inl (fate_of_find?_eq_none hb hn hv hf)
    · have hfate := fate_of_find?_eq_some hb hn hv hf
      rcases hr : rule.action with r | _
      · exact .inr (.inr ⟨rule, r, hn, hv, rfl, hr, hfate.trans (congrArg Fate.ofAction hr)⟩)
      · exact .inr (.inl (hfate.trans (congrArg Fate.ofAction hr)))
  · exact .inl (if_neg hlisted)

/-- Under stable rules, what an attribute leaves is let be by a second fate. -/
theorem leaves_fate_of_stable (hb : Rulebook.ofManifest m = .ok b) (hs : b.Stable)
    {a a' : String × String} (h : (m.fate names a).leaves a = some a') :
    (m.fate names a').leaves a' = some a' := by
  rcases fate_cases hb names a.1 a.2 with hkept | hremoved | ⟨rule, r, hn, hv, hf, hr, hfate⟩
  · rw [hkept] at h
    obtain rfl := Option.some.inj h
    rw [hkept]
    rfl
  · rw [hremoved] at h
    cases h
  · -- the replacement has the second fate, and that is to be kept or to get itself
    rw [hfate] at h
    obtain rfl := Option.some.inj h
    have hne := ne_empty_of_find? hb hf hr
    rcases hs a.2 rule r hv hf hr with hnone | ⟨rule', hf', hr'⟩
    · rw [fate_of_find?_eq_none hb hn hne hnone]
      rfl
    · rw [fate_of_find?_eq_some hb hn hne hf', hr']
      rfl

/-- What a rule leaves of a listed attribute that is on its own. -/
theorem fates_singleton (hb : Rulebook.ofManifest m = .ok b) (hn : n ∈ names) (hv : v ≠ "")
    (hf : b.find? v = some rule) :
    m.fates names [(n, v)] = ((Fate.ofAction rule.action).leaves (n, v)).toList := by
  rw [fates, List.filterMap_cons, fate_of_find?_eq_some hb hn hv hf]
  cases (Fate.ofAction rule.action).leaves (n, v) <;> rfl

end Fates

/-! ### The second change of a start tag -/

/-- **The rules are stable exactly if a second change of start tags adds nothing**, if any
attribute is listed at all. -/
theorem stable_iff_changed (hb : Rulebook.ofManifest m = .ok b) {scope : Scope}
    (hscope : ∃ tag n, n ∈ scope.listed tag) :
    b.Stable ↔ ∀ s : StartTag,
      m.relinkedTag scope (s.changed (m.relinkedTag scope)) = m.relinkedTag scope s := by
  constructor
  · refine fun hs s => Table.eq_of_entries ?_
    have htwice (names : List String) (es : Entries String) :
        m.fates names (m.fates names es) = m.fates names es := by
      rw [fates, fates, List.filterMap_filterMap]
      refine List.filterMap_congr fun a _ => ?_
      rcases ha : (m.fate names a).leaves a with _ | a'
      · rfl
      · exact leaves_fate_of_stable hb hs ha
    exact htwice (scope.listed s.name) s.attributes.entries
  · intro hchanged value rule r hv hf hr
    obtain ⟨tag, n, hn⟩ := hscope
    -- an element with the value under a listed name is changed twice
    have htwice : m.fates (scope.listed tag) (m.fates (scope.listed tag) [(n, value)]) =
        m.fates (scope.listed tag) [(n, value)] :=
      congrArg Table.entries (hchanged ((StartTag.named tag).set n value))
    rw [fates_singleton hb hn hv hf, hr] at htwice
    have hsecond : m.fates (scope.listed tag) [(n, r)] = [(n, r)] := htwice
    rcases hf' : b.find? r with _ | rule'
    · exact .inl rfl
    · rw [fates_singleton hb hn (ne_empty_of_find? hb hf hr) hf'] at hsecond
      refine .inr ⟨rule', rfl, ?_⟩
      rcases hr' : rule'.action with r' | _
      · rw [hr'] at hsecond
        cases hsecond
        rfl
      · rw [hr'] at hsecond
        cases hsecond

end Manifest

/-! ### Relinking again -/

/-- A second change of documents adds nothing exactly if one of start tags does. -/
theorem Document.mapTags_twice_iff {f : StartTag → Attributes} :
    (∀ d : Document, (d.mapTags f).mapTags f = d.mapTags f) ↔
      ∀ s : StartTag, f (s.changed f) = f s := by
  constructor
  · intro h s
    have htags := congrArg Document.startTags (h ⟨[.element s []]⟩)
    rw [Document.startTags_mapTags, Document.startTags_mapTags] at htags
    simpa [Document.startTags, Node.startTagsList, Node.startTags, StartTag.changed] using htags
  · intro h d
    rw [Document.mapTags_mapTags]
    exact congrArg d.mapTags (funext h)

namespace Relinker

/-- **When relinking again makes no difference.** For the rules of any manifest, and any
scope that lists an attribute at all, these come to the same: the rules are stable; every
document that has been relinked is left as it is by a second call to the relinker,
whatever has become of the files; every tour that comes to all elements of a document, in
any order and with any repetitions, leaves the document that the ordinary walk leaves. -/
theorem stable_tfae (files files' : FileSystem) (r : Relinker) (m : Manifest) (b : Rulebook)
    (hm : Rulebook.ofManifest m = .ok b) (hr : (r.load files).value = .ok b)
    (hscope : ∃ tag n, n ∈ r.scope.listed tag) :
    List.TFAE [
      b.Stable,
      ∀ d : Document,
        ((r.transform files d).value.2.transform files'
          (r.transform files d).value.1.tree).value.1.tree =
            (r.transform files d).value.1.tree,
      ∀ t : Tour, t.Complete →
        (r.transform files t).value.1.tree.document =
          (r.transform files t.document).value.1.tree] := by
  have hvisit := Manifest.visitor_fst hm r.scope
  have honce (d : Document) :
      (r.transform files d).value.1.tree = d.mapTags (m.relinkedTag r.scope) := by
    rw [transform_of_load_ok d hr]
    exact (Relinking.tree_document hm r.scope d).1
  have htwice (d : Document) :
      ((r.transform files d).value.2.transform files'
        (r.transform files d).value.1.tree).value.1.tree =
          (d.mapTags (m.relinkedTag r.scope)).mapTags (m.relinkedTag r.scope) := by
    -- the second call finds the rules remembered
    have hr' : ((r.transform files d).value.2.load files').value = .ok b := by
      rw [transform_of_load_ok d hr]
      rfl
    rw [transform_of_load_ok _ hr', honce, transform_of_load_ok d hr]
    exact (Relinking.tree_document hm r.scope _).1
  have htour (t : Tour) : (r.transform files t).value.1.tree.document =
      (Walkable.walk (Relinking.visitor b r.scope) t Progress.start).1.document := by
    rw [transform_of_load_ok t hr]
    rfl
  rw [Manifest.stable_iff_changed hm hscope]
  tfae_have 1 ↔ 2 := by
    rw [← Document.mapTags_twice_iff]
    exact forall_congr' fun d => by rw [htwice, honce]
  tfae_have 1 ↔ 3 := by
    rw [← Tour.walk_eq_mapTags_iff hvisit]
    exact forall₂_congr fun t _ => by rw [htour, honce]
  tfae_finish

/-- A relinker of scripts with replacements that are paths again. -/
def ofChained : Relinker := ofSettings ⟨Scope.standard, .inline chained⟩

/-- The rules of `chained` are not stable, and so there is a document that a second call
changes again, and a tour that leaves something else than the ordinary walk. -/
theorem stable_tfae_chained :
    ∃ b, Rulebook.ofManifest chained = .ok b ∧ (ofChained.load FileSystem.empty).value = .ok b ∧
      "src" ∈ ofChained.scope.listed "script" ∧ ¬b.Stable ∧
      (∃ d : Document,
        ((ofChained.transform FileSystem.empty d).value.2.transform FileSystem.empty
          (ofChained.transform FileSystem.empty d).value.1.tree).value.1.tree ≠
            (ofChained.transform FileSystem.empty d).value.1.tree) ∧
      ∃ t : Tour, t.Complete ∧
        (ofChained.transform FileSystem.empty t).value.1.tree.document ≠
          (ofChained.transform FileSystem.empty t.document).value.1.tree := by
  obtain ⟨b, hb⟩ := Rulebook.exists_ofManifest_iff.2
    (show ∀ e ∈ chained.entries, (PathPattern.ofPath e.1).Fits by decide)
  have hload : (ofChained.load FileSystem.empty).value = .ok b :=
    (value_load_ofSettings_inline _ _ _).trans hb
  have hlisted : "src" ∈ ofChained.scope.listed "script" := by decide
  -- `a.js` is replaced by `b.js`, and `b.js` by something else
  have hfirst : (b.find? "a.js").map (fun r => (r.path, r.action)) =
      some ("a.js", .replace "b.js") := (Rulebook.find?_ofManifest hb _).trans (by decide)
  have hnext : (b.find? "b.js").map (fun r => (r.path, r.action)) =
      some ("b.js", .replace "c.js") := (Rulebook.find?_ofManifest hb _).trans (by decide)
  obtain ⟨rule, hf, he⟩ := Option.map_eq_some_iff.1 hfirst
  obtain ⟨rule', hf', he'⟩ := Option.map_eq_some_iff.1 hnext
  have hstable : ¬b.Stable := by
    intro hs
    rcases hs "a.js" rule "b.js" (by decide) hf (Prod.mk.inj he).2 with hnone | ⟨_, hf'', ha⟩
    · rw [hf'] at hnone
      cases hnone
    · obtain rfl := Option.some.inj (hf'.symm.trans hf'')
      rw [(Prod.mk.inj he').2] at ha
      exact absurd ha (by decide)
  have htfae := stable_tfae FileSystem.empty FileSystem.empty ofChained chained b hb hload
    ⟨"script", "src", hlisted⟩
  refine ⟨b, hb, hload, hlisted, hstable, ?_, ?_⟩
  · by_contra! hall
    exact hstable ((htfae.out 1 0).1 hall)
  · by_contra! hall
    exact hstable ((htfae.out 2 0).1 hall)

end Relinker

end Relink
