import Mathlib.Algebra.GroupWithZero.Nat
import Relink.Proofs.Fate
import Relink.Proofs.Walk
import Relink.Relinker

/-!
# Relinking all attributes at once

Relinking goes through the elements of a tree and, at each, through the names that
the scope lists, looking every attribute up, matching its value and writing the
attribute list anew. Here this is shown to be the same as letting all attributes of
the tree meet their fates at once (`Relinker.transform_eq_fates`).

That the two agree rests on names being unique twice over. A name stands once in an
attribute list, so that looking up, writing and removing all concern the same
attribute; and once in the list of the scope, so that no attribute is looked at
again with the value that it has just been given. The invariant of the loop over
the listed names is `Manifest.Pass`: after some of them, the attributes with those
names have met their fates, and no others.
-/

namespace Relink

/-! ### One attribute -/

namespace StartTag

/-- A start tag when its attribute with a name has met a fate. -/
def meet (s : StartTag) (name : String) : Fate → StartTag
  | .kept => s
  | .relinked value => s.set name value
  | .removed => s.remove name

theorem name_meet (s : StartTag) (name : String) (f : Fate) : (s.meet name f).name = s.name := by
  cases f <;> rfl

end StartTag

namespace Manifest

variable {m : Manifest} {b : Rulebook}

/-! ### One element -/

/-- **What a pass over some names does** to a start tag and to the counts: the
attributes with those names meet their fates, and each kind of fate is counted. -/
structure Pass (m : Manifest) (names : List String) (s s' : StartTag) (p p' : Progress) : Prop where
  /-- The name of the element is unchanged. -/
  name : s'.name = s.name
  /-- The attributes have met their fates. -/
  entries : s'.attributes.entries = m.fates names s.attributes.entries
  /-- Those that got a value have been counted. -/
  relinked : p'.relinked = p.relinked + m.met Fate.isRelinked names s.attributes.entries
  /-- Those that were removed have been counted. -/
  removed : p'.removed = p.removed + m.met Fate.isRemoved names s.attributes.entries

theorem Pass.of_unlisted {names : List String} {s : StartTag} {p : Progress}
    (h : ∀ n ∈ names, n ∉ s.attributes.keys) : m.Pass names s s p p where
  name := rfl
  entries := (fates_of_unlisted h).symm
  relinked := by rw [met_of_unlisted rfl h, Nat.add_zero]
  removed := by rw [met_of_unlisted rfl h, Nat.add_zero]

theorem Pass.cons {n : String} {names : List String} (hn : n ∉ names) {s s₁ s₂ : StartTag}
    {p p₁ p₂ : Progress} (h₁ : m.Pass [n] s s₁ p p₁) (h₂ : m.Pass names s₁ s₂ p₁ p₂) :
    m.Pass (n :: names) s s₂ p p₂ where
  name := h₂.name.trans h₁.name
  entries := by rw [h₂.entries, h₁.entries, fates_cons hn]
  relinked := by
    rw [h₂.relinked, h₁.relinked, h₁.entries, ← met_cons rfl hn, Nat.add_assoc]
  removed := by
    rw [h₂.removed, h₁.removed, h₁.entries, ← met_cons rfl hn, Nat.add_assoc]

/-- The rule that decides about a value does what the entry that decides about it
says. -/
theorem fate_of_find? (hb : Rulebook.ofManifest m = .ok b) {n v : String} (hv : v ≠ "") :
    m.fate [n] (n, v) = match b.find? v with
      | none => .kept
      | some rule => match rule.action with
        | .replace r => .relinked r
        | .remove => .removed := by
  have hf := Rulebook.find?_ofManifest hb v
  have hlist : (n, v).1 ∈ [n] ∧ (n, v).2 ≠ "" := ⟨List.mem_singleton_self n, hv⟩
  rw [fate, if_pos hlist]
  cases hr : b.find? v with
  | none =>
    rw [hr, Option.map_none, eq_comm, Option.map_eq_none_iff] at hf
    rw [hf]
  | some rule =>
    rw [hr, Option.map_some, eq_comm, Option.map_eq_some_iff] at hf
    obtain ⟨e, he, hre⟩ := hf
    obtain ⟨-, ha⟩ := Prod.mk.inj hre
    simp only [he, ← ha]
    rcases e.2 with _ | r
    · rfl
    · by_cases hre : r = "" <;> simp [Action.ofReplacement, Fate.ofReplacement, hre]

/-- A pass over one name is settled by the attribute that has it. -/
theorem Pass.of_get? {n v : String} {s s' : StartTag} {p p' : Progress} (hg : s.get? n = some v)
    (hs : s' = s.meet n (m.fate [n] (n, v)))
    (hrelinked : p'.relinked = p.relinked + (m.fate [n] (n, v)).isRelinked.toNat)
    (hremoved : p'.removed = p.removed + (m.fate [n] (n, v)).isRemoved.toNat) :
    m.Pass [n] s s' p p' := by
  -- the attributes before and behind the one with this name have other names
  obtain ⟨before, after, he, hb⟩ := Entries.exists_append_of_get? hg
  have ha : n ∉ Entries.keys after := by
    have hnodup := s.attributes.nodup
    rw [he, Entries.keys_append, Entries.keys_cons, List.nodup_append] at hnodup
    exact (List.nodup_cons.1 hnodup.2.1).1
  refine ⟨?_, ?_, ?_, ?_⟩
  · rw [hs, StartTag.name_meet]
  · rw [hs, he, fates_split hb ha]
    cases m.fate [n] (n, v) with
    | kept => simp [StartTag.meet, Fate.leaves, he]
    | relinked r => simp [StartTag.meet, StartTag.set, Fate.leaves, he, Entries.put_append hb]
    | removed => simp [StartTag.meet, StartTag.remove, Fate.leaves, he, Entries.drop_append hb ha]
  · rw [hrelinked, he, met_split hb ha v rfl]
  · rw [hremoved, he, met_split hb ha v rfl]

/-- Looking at one listed attribute lets it meet its fate, which is counted. -/
theorem listed_of_get? (hb : Rulebook.ofManifest m = .ok b) {s : StartTag} {n v : String}
    (hg : s.get? n = some v) (p : Progress) :
    (Relinking.listed b s p n).1 = s.meet n (m.fate [n] (n, v)) ∧
      (Relinking.listed b s p n).2.relinked =
        p.relinked + (m.fate [n] (n, v)).isRelinked.toNat ∧
      (Relinking.listed b s p n).2.removed =
        p.removed + (m.fate [n] (n, v)).isRemoved.toNat := by
  by_cases hv : v = ""
  · have hf : m.fate [n] (n, v) = .kept := if_neg fun hc => hc.2 hv
    simp [Relinking.listed, hg, hv, hv ▸ hf, StartTag.meet, Fate.isRelinked, Fate.isRemoved]
  · have hf := fate_of_find? hb (n := n) hv
    have hl : Relinking.listed b s p n =
        ((s.relink b n).value.2, p.add (s.relink b n).value.1 (s.relink b n).events) := by
      rw [Relinking.listed, hg]
      exact if_neg hv
    rw [hl, hf, StartTag.relink, hg]
    dsimp only
    -- the same rule, if there is one, decides about the fate and about the visit
    cases b.find? v with
    | none => exact ⟨rfl, rfl, rfl⟩
    | some rule =>
      dsimp only
      cases rule.action with
      | replace r => exact ⟨rfl, rfl, rfl⟩
      | remove => exact ⟨rfl, rfl, rfl⟩

/-- **Step of the loop**: looking at one listed name is a pass over that name. -/
theorem pass_listed (hb : Rulebook.ofManifest m = .ok b) (s : StartTag) (p : Progress)
    (n : String) :
    m.Pass [n] s (Relinking.listed b s p n).1 p (Relinking.listed b s p n).2 := by
  cases hg : s.get? n with
  | none =>
    rw [Relinking.listed, hg]
    exact Pass.of_unlisted (by simpa [Table.keys] using Entries.get?_eq_none_iff.1 hg)
  | some v =>
    obtain ⟨hs, hrelinked, hremoved⟩ := listed_of_get? hb hg p
    exact Pass.of_get? hg hs hrelinked hremoved

/-- **Run of the loop**: looking at all listed names, none of them twice, is a pass
over them. -/
theorem pass_allListed (hb : Rulebook.ofManifest m = .ok b) {names : List String}
    (hn : names.Nodup) (s : StartTag) (p : Progress) :
    m.Pass names s (Relinking.allListed b names s p).1 p (Relinking.allListed b names s p).2 := by
  -- the induction is on the list of the scope; the tag is the one left by the names before
  induction names generalizing s p with
  | nil => exact Pass.of_unlisted (by simp)
  | cons n names ih =>
    rw [List.nodup_cons] at hn
    exact (pass_listed hb s p n).cons hn.1 (ih hn.2 _ _)

end Manifest

/-! ### One element in its scope -/

namespace Scope

/-- The names that are listed for a tag: none, unless it is inspected. -/
def listed (scope : Scope) (tag : String) : List String := (scope.attributes? tag).getD []

theorem nodup_listed (scope : Scope) (tag : String) : (scope.listed tag).Nodup := by
  rw [listed]
  cases h : scope.attributes? tag with
  | none => exact List.nodup_nil
  | some names => exact scope.nodup _ (Entries.mem_of_get? h)

end Scope

namespace Manifest

/-- The attributes of an element when each has met its fate. -/
def relinkedTag (m : Manifest) (scope : Scope) (s : StartTag) : Attributes where
  entries := m.fates (scope.listed s.name) s.attributes.entries
  nodup := (m.keys_fates_sublist _ _).nodup s.attributes.nodup

/-- How many attributes of several elements meet a fate of the given kind. -/
def metIn (m : Manifest) (scope : Scope) (kind : Fate → Bool) (tags : List StartTag) : Nat :=
  (tags.map fun s => m.met kind (scope.listed s.name) s.attributes.entries).sum

/-- What is reported when the attributes of several elements have met their fates. -/
def report (m : Manifest) (scope : Scope) (tags : List StartTag) : Event :=
  .finished (m.metIn scope Fate.isRelinked tags) (m.metIn scope Fate.isRemoved tags)

variable {m : Manifest} {b : Rulebook}

/-- Visiting an element is a pass over the names listed for its tag. -/
theorem pass_visitor (hb : Rulebook.ofManifest m = .ok b) (scope : Scope) (s : StartTag)
    (p : Progress) :
    m.Pass (scope.listed s.name) s ⟨s.name, (Relinking.visitor b scope s p).1⟩ p
      (Relinking.visitor b scope s p).2 := by
  -- a scope lists no name twice, which is what the loop needs
  have hn := scope.nodup_listed s.name
  rw [Scope.listed] at hn ⊢
  rw [Relinking.visitor]
  cases h : scope.attributes? s.name with
  | none => exact Pass.of_unlisted (by simp)
  | some names =>
    rw [h, Option.getD_some] at hn
    have hp := pass_allListed hb hn s p
    exact ⟨rfl, hp.entries, hp.relinked, hp.removed⟩

theorem visitor_fst (hb : Rulebook.ofManifest m = .ok b) (scope : Scope) (s : StartTag)
    (p : Progress) : (Relinking.visitor b scope s p).1 = m.relinkedTag scope s :=
  Table.eq_of_entries (pass_visitor hb scope s p).entries

/-- The counts of a walk add up over the elements. -/
theorem foldl_visitor (hb : Rulebook.ofManifest m = .ok b) (scope : Scope) (tags : List StartTag)
    (p : Progress) :
    (tags.foldl (fun p s => (Relinking.visitor b scope s p).2) p).relinked =
        p.relinked + m.metIn scope Fate.isRelinked tags ∧
      (tags.foldl (fun p s => (Relinking.visitor b scope s p).2) p).removed =
        p.removed + m.metIn scope Fate.isRemoved tags := by
  induction tags generalizing p with
  | nil => exact ⟨rfl, rfl⟩
  | cons s tags ih =>
    have hp := pass_visitor hb scope s p
    obtain ⟨h₁, h₂⟩ := ih (Relinking.visitor b scope s p).2
    refine ⟨h₁.trans ?_, h₂.trans ?_⟩
    · rw [hp.relinked, metIn, metIn, List.map_cons, List.sum_cons, Nat.add_assoc]
    · rw [hp.removed, metIn, metIn, List.map_cons, List.sum_cons, Nat.add_assoc]

/-- **What relinking leaves of an element's attributes**: some of them, in their
order; those that are not listed as they were; and none empty that was not. -/
structure Spares (m : Manifest) (scope : Scope) (s : StartTag) : Prop where
  /-- What is left is in order, and nothing is added. -/
  keys : (m.relinkedTag scope s).keys.Sublist s.attributes.keys
  /-- What is not listed for the tag is unchanged. -/
  unlisted : ∀ n, n ∉ scope.listed s.name → (m.relinkedTag scope s).get? n = s.get? n
  /-- Nothing is made empty. -/
  empty : ∀ n, (m.relinkedTag scope s).get? n = some "" → s.get? n = some ""

theorem spares (m : Manifest) (scope : Scope) (s : StartTag) : m.Spares scope s where
  keys := m.keys_fates_sublist _ _
  unlisted _ h := get?_fates_of_unlisted s.attributes.nodup h
  empty _ h := get?_of_get?_fates_eq_empty s.attributes.nodup h

end Manifest

/-! ### Whole trees -/

namespace Relinking

variable {m : Manifest} {b : Rulebook}

theorem tree_document (hb : Rulebook.ofManifest m = .ok b) (scope : Scope) (d : Document) :
    (tree b scope d).1 = d.mapTags (m.relinkedTag scope) ∧
      Event.finished (tree b scope d).2.relinked (tree b scope d).2.removed =
        m.report scope d.startTags := by
  rw [tree, Document.walk_eq_mapTags (Manifest.visitor_fst hb scope)]
  obtain ⟨h₁, h₂⟩ := Manifest.foldl_visitor hb scope d.startTags Progress.start
  exact ⟨rfl, by rw [h₁, h₂, Manifest.report, Progress.start, Nat.zero_add, Nat.zero_add]⟩

theorem tree_element (hb : Rulebook.ofManifest m = .ok b) (scope : Scope) (e : Element) :
    (tree b scope e).1 = e.mapTags (m.relinkedTag scope) ∧
      Event.finished (tree b scope e).2.relinked (tree b scope e).2.removed =
        m.report scope e.startTags := by
  rw [tree, Element.walk_eq_mapTags (Manifest.visitor_fst hb scope)]
  obtain ⟨h₁, h₂⟩ := Manifest.foldl_visitor hb scope e.startTags Progress.start
  exact ⟨rfl, by rw [h₁, h₂, Manifest.report, Progress.start, Nat.zero_add, Nat.zero_add]⟩

end Relinking

namespace Relinker

/-- **Relinking is simultaneous**: a call that finds the rules of a manifest leaves the
tree in which every attribute has met its fate, and reports how many got a value and
how many were removed; an element comes to the same on its own as in a document. All
else is as it was: the tree without its attributes, and of these what `Manifest.Spares`
says. -/
theorem transform_eq_fates (files : FileSystem) (r : Relinker) (m : Manifest) (b : Rulebook)
    (hm : Rulebook.ofManifest m = .ok b) (hr : (r.load files).value = .ok b) :
    (∀ d : Document,
      (r.transform files d).value.1 = ⟨d.mapTags (m.relinkedTag r.scope), none⟩ ∧
      (r.transform files d).events.getLast? = some (m.report r.scope d.startTags) ∧
      (d.mapTags (m.relinkedTag r.scope)).mapTags (fun _ => Table.empty) =
        d.mapTags (fun _ => Table.empty)) ∧
    (∀ e : Element,
      (r.transform files e).value.1 = ⟨e.mapTags (m.relinkedTag r.scope), none⟩ ∧
      (r.transform files e).events.getLast? = some (m.report r.scope e.startTags) ∧
      (r.transform files (⟨[e.toNode]⟩ : Document)).value.1 =
        ⟨⟨[(e.mapTags (m.relinkedTag r.scope)).toNode]⟩, none⟩ ∧
      (r.transform files (⟨[e.toNode]⟩ : Document)).events.getLast? =
        (r.transform files e).events.getLast?) ∧
    ∀ s : StartTag, m.Spares r.scope s := by
  have hd : ∀ d : Document,
      (r.transform files d).value.1 = ⟨d.mapTags (m.relinkedTag r.scope), none⟩ ∧
      (r.transform files d).events.getLast? = some (m.report r.scope d.startTags) := by
    intro d
    obtain ⟨h₁, h₂⟩ := Relinking.tree_document hm r.scope d
    rw [transform_of_load_ok d hr, h₁, List.getLast?_concat, h₂]
    exact ⟨rfl, rfl⟩
  refine ⟨fun d => ⟨(hd d).1, (hd d).2, Document.mapTags_mapTags _ _ d⟩, fun e => ?_,
    m.spares r.scope⟩
  obtain ⟨h₁, h₂⟩ := Relinking.tree_element hm r.scope e
  have hone : (⟨[e.toNode]⟩ : Document).startTags = e.startTags := by
    simp [Document.startTags, Node.startTagsList, ← Element.startTags_toNode]
  obtain ⟨hd₁, hd₂⟩ := hd ⟨[e.toNode]⟩
  rw [transform_of_load_ok e hr, h₁, List.getLast?_concat, h₂, hd₁, hd₂, hone]
  exact ⟨rfl, rfl, rfl, rfl⟩

/-- A manifest some of whose replacements are paths of it. -/
def chained : Manifest :=
  Table.ofList [("a.js", some "b.js"), ("b.js", some "c.js"), ("old.js", none)]

/-- A document with scripts inside each other, and a text that is a path. -/
def nestedScripts : Document :=
  ⟨[.element ((((StartTag.named "script").set "src" "/a.js").set "alt" "old.js").set "id" "a.js")
    [.text "a.js", .element ((StartTag.named "script").set "src" " b.js") []]]⟩

/-- A replacement is not matched again, although it is the path of another entry; a
removed attribute leaves the others in order; and what is not listed is let be. -/
theorem transform_eq_fates_chained :
    ∃ b, Rulebook.ofManifest chained = .ok b ∧
      ((ofSettings ⟨Scope.ofList [("script", ["src", "alt"])], .inline chained⟩).load
        FileSystem.empty).value = .ok b ∧
      ((ofSettings ⟨Scope.ofList [("script", ["src", "alt"])], .inline chained⟩).transform
        FileSystem.empty nestedScripts).value.1 =
          ⟨⟨[.element (((StartTag.named "script").set "src" "b.js").set "id" "a.js")
            [.text "a.js", .element ((StartTag.named "script").set "src" "c.js") []]]⟩, none⟩ ∧
      ((ofSettings ⟨Scope.ofList [("script", ["src", "alt"])], .inline chained⟩).transform
        FileSystem.empty nestedScripts).events.getLast? = some (.finished 2 1) := by
  obtain ⟨b, hb⟩ : ∃ b, Rulebook.ofManifest chained = .ok b := by
    cases h : Rulebook.ofManifest chained with
    | ok b => exact ⟨b, rfl⟩
    | error f =>
      have hs : (Rulebook.ofManifest chained).toOption.isSome := by decide +kernel
      rw [h] at hs
      exact absurd hs Bool.false_ne_true
  have hl : ((ofSettings ⟨Scope.ofList [("script", ["src", "alt"])], .inline chained⟩).load
      FileSystem.empty).value = .ok b := (value_compile_inline FileSystem.empty chained).trans hb
  obtain ⟨h₁, h₂, -⟩ := (transform_eq_fates FileSystem.empty _ chained b hb hl).1 nestedScripts
  refine ⟨b, hb, hl, h₁.trans ?_, h₂.trans ?_⟩
  · rfl
  · rfl

end Relinker

end Relink
