import Relink.Proofs.Tour

/-!
# Document order

A walk goes through a tree and changes it on the way, with a state that is handed on from
visit to visit. Nothing of this depends on how the walk is made: it is the same as going down
the list of the start tags (`Relink.Walkable.walk_in_order`).

That this list has every element, and in which order, can be said without a walk. An element
is found by a *way*: the positions of the nodes to be taken, from the outside in. The ways that
lead to an element are all in the list, and their order is that of a dictionary
(`Relink.Node.pairwise_ways`): a way comes before those that go on from it, and before those
that turn off further to the right. So each element is there once, before what is inside it and
after what stands on its left.
-/

namespace Relink

namespace Node

/-! ### Ways -/

/-- The start tag of the element to which a way leads from a node, if it leads to one. -/
def tagAt? : Node → List Nat → Option StartTag
  | .text _, _ => none
  | .element start _, [] => some start
  | .element _ children, i :: way => children[i]?.bind fun n => n.tagAt? way

/-- The start tag of the element to which a way leads, the first step being to one of several
nodes. -/
def tagAmong? (ns : List Node) : List Nat → Option StartTag
  | [] => none
  | i :: way => ns[i]?.bind fun n => n.tagAt? way

mutual

/-- The ways that lead to an element from a node. -/
def ways : Node → List (List Nat)
  | .text _ => []
  | .element _ children => [] :: waysList children

/-- The ways that lead to an element, the first step being to one of several nodes. -/
def waysList : List Node → List (List Nat)
  | [] => []
  | n :: ns => (ways n).map (0 :: ·) ++ (waysList ns).map (List.modifyHead (· + 1))

end

theorem mem_waysList_iff {ns : List Node} {way : List Nat} :
    way ∈ waysList ns ↔ ∃ i n way', way = i :: way' ∧ ns[i]? = some n ∧ way' ∈ n.ways := by
  induction ns generalizing way with
  | nil => simp [waysList]
  | cons n ns ih =>
    rw [waysList, List.mem_append, List.mem_map, List.mem_map]
    constructor
    · rintro (⟨way', hway', rfl⟩ | ⟨way', hway', rfl⟩)
      · exact ⟨0, n, way', rfl, rfl, hway'⟩
      · obtain ⟨i, m, way, rfl, hm, hway⟩ := ih.1 hway'
        exact ⟨i + 1, m, way, rfl, hm, hway⟩
    · rintro ⟨_ | i, m, way', rfl, hm, hway'⟩
      · obtain rfl := Option.some.inj hm
        exact .inl ⟨way', hway', rfl⟩
      · exact .inr ⟨i :: way', ih.2 ⟨i, m, way', rfl, hm, hway'⟩, rfl⟩

theorem exists_cons_of_mem_waysList {ns : List Node} {way : List Nat} (h : way ∈ waysList ns) :
    ∃ i way', way = i :: way' := by
  obtain ⟨i, -, way', rfl, -⟩ := mem_waysList_iff.1 h
  exact ⟨i, way', rfl⟩

/-- The ways that are there are those that lead to an element. -/
theorem mem_ways_iff {n : Node} {way : List Nat} : way ∈ n.ways ↔ (n.tagAt? way).isSome := by
  induction way generalizing n with
  | nil => cases n <;> simp [ways, tagAt?]
  | cons i way ih =>
    rcases n with _ | ⟨start, children⟩
    · simp [ways, tagAt?]
    · rw [ways, List.mem_cons, mem_waysList_iff, tagAt?]
      simp only [reduceCtorEq, false_or, List.cons.injEq]
      cases hn : children[i]? <;> simp [hn, ih]

theorem mem_waysList_iff_isSome {ns : List Node} {way : List Nat} :
    way ∈ waysList ns ↔ (tagAmong? ns way).isSome := by
  rw [mem_waysList_iff]
  rcases way with _ | ⟨i, way⟩
  · simp [tagAmong?]
  · simp only [List.cons.injEq, tagAmong?]
    cases hn : ns[i]? <;> simp [hn, mem_ways_iff]

mutual

/-- **The ways stand in the order of a dictionary.** -/
theorem pairwise_ways : (n : Node) → n.ways.Pairwise (· < ·)
  | .text _ => .nil
  | .element _ children => by
    refine List.pairwise_cons.2 ⟨fun way hway => ?_, pairwise_waysList children⟩
    obtain ⟨i, way', rfl⟩ := exists_cons_of_mem_waysList hway
    exact List.nil_lt_cons i way'

theorem pairwise_waysList : (ns : List Node) → (waysList ns).Pairwise (· < ·)
  | [] => .nil
  | n :: ns => by
    rw [waysList, List.pairwise_append, List.pairwise_map, List.pairwise_map]
    refine ⟨?_, ?_, ?_⟩
    · exact (pairwise_ways n).imp fun h => List.cons_lt_cons_iff.2 (.inr ⟨rfl, h⟩)
    · refine (pairwise_waysList ns).imp_of_mem fun {way way'} hway hway' h => ?_
      obtain ⟨i, way, rfl⟩ := exists_cons_of_mem_waysList hway
      obtain ⟨j, way', rfl⟩ := exists_cons_of_mem_waysList hway'
      rw [List.cons_lt_cons_iff] at h
      exact List.cons_lt_cons_iff.2 (h.imp Nat.succ_lt_succ (And.imp_left (congrArg Nat.succ)))
    · -- what is inside the first node comes before what is inside the others
      intro way hway way' hway'
      obtain ⟨way, -, rfl⟩ := List.mem_map.1 hway
      obtain ⟨way', hmem, rfl⟩ := List.mem_map.1 hway'
      obtain ⟨i, way', rfl⟩ := exists_cons_of_mem_waysList hmem
      exact List.cons_lt_cons_iff.2 (.inl (Nat.succ_pos i))

end

mutual

/-- The ways lead to the start tags in walk order. -/
theorem map_tagAt?_ways : (n : Node) → n.ways.map n.tagAt? = n.startTags.map some
  | .text _ => rfl
  | .element start children => by
    have htail : (waysList children).map (tagAt? (.element start children)) =
        (waysList children).map (tagAmong? children) := by
      refine List.map_congr_left fun way hway => ?_
      obtain ⟨i, way', rfl⟩ := exists_cons_of_mem_waysList hway
      rfl
    rw [ways, startTags, List.map_cons, List.map_cons, htail, map_tagAmong?_waysList children]
    rfl

theorem map_tagAmong?_waysList : (ns : List Node) →
    (waysList ns).map (tagAmong? ns) = (startTagsList ns).map some
  | [] => rfl
  | n :: ns => by
    have hhead : (tagAmong? (n :: ns)) ∘ (0 :: ·) = n.tagAt? := rfl
    have htail : (tagAmong? (n :: ns)) ∘ List.modifyHead (· + 1) = tagAmong? ns := by
      funext way
      cases way <;> rfl
    rw [waysList, startTagsList, List.map_append, List.map_append, List.map_map, List.map_map,
      hhead, htail, map_tagAt?_ways n, map_tagAmong?_waysList ns]

end

mutual

/-- The ways do not depend on the attributes. -/
theorem ways_mapTags (f : StartTag → Attributes) : (n : Node) → (n.mapTags f).ways = n.ways
  | .text _ => rfl
  | .element _ children => by rw [mapTags, ways, ways, waysList_mapTagsList f children]

theorem waysList_mapTagsList (f : StartTag → Attributes) : (ns : List Node) →
    waysList (mapTagsList f ns) = waysList ns
  | [] => rfl
  | n :: ns => by
    rw [mapTagsList, waysList, waysList, ways_mapTags f n, waysList_mapTagsList f ns]

end

theorem waysList_of_outline {ns ns' : List Node} (h : outlineList ns' = outlineList ns) :
    waysList ns' = waysList ns := by
  rw [← waysList_mapTagsList (fun _ => Table.empty) ns', ← outlineList, h, outlineList,
    waysList_mapTagsList]

end Node

/-! ### Visits, one after the other -/

section Visits

variable {σ : Type} {visit : Visitor σ}

/-- The state of a visitor that has been at some start tags, one after the other. -/
def Visitor.after (visit : Visitor σ) (s : σ) (tags : List StartTag) : σ :=
  tags.foldl (fun s start => (visit start s).2) s

/-- **Start tags are visited**, one after the other and each of them once: it gets the
attributes that are given back, and the next visit begins in the state that is left. -/
inductive Visits (visit : Visitor σ) : σ → List StartTag → List StartTag → σ → Prop
  /-- There is nothing to visit. -/
  | nil (s : σ) : Visits visit s [] [] s
  /-- The first is visited, and then the others. -/
  | cons {s s' : σ} {start : StartTag} {tags tags' : List StartTag}
    (h : Visits visit (visit start s).2 tags tags' s') :
    Visits visit s (start :: tags) (start.changed (fun start => (visit start s).1) :: tags') s'

variable {s s₁ s₂ : σ} {tags tags' tags₁ tags₁' : List StartTag}

theorem Visits.append (h : Visits visit s tags tags' s₁) (h₁ : Visits visit s₁ tags₁ tags₁' s₂) :
    Visits visit s (tags ++ tags₁) (tags' ++ tags₁') s₂ := by
  induction h with
  | nil => exact h₁
  | cons _ ih => exact .cons (ih h₁)

theorem Visits.state_eq (h : Visits visit s tags tags' s₁) : s₁ = Visitor.after visit s tags := by
  induction h with
  | nil => rfl
  | cons _ ih => exact ih

/-- A start tag has the attributes that were given back when those before it had been
visited. -/
theorem Visits.getElem?_eq (h : Visits visit s tags tags' s₁) (k : Nat) :
    tags'[k]? = tags[k]?.map
      (StartTag.changed fun start => (visit start (Visitor.after visit s (tags.take k))).1) := by
  induction h generalizing k with
  | nil => rfl
  | cons _ ih =>
    cases k with
    | zero => rfl
    | succ k => exact ih k

end Visits

namespace Node

variable {σ : Type} (visit : Visitor σ)

mutual

theorem visits_walk : (n : Node) → (s : σ) →
    Visits visit s n.startTags (walk visit n s).1.startTags (walk visit n s).2
  | .text _, s => .nil s
  | .element _ children, _ => .cons (visits_walkList children _)

theorem visits_walkList : (ns : List Node) → (s : σ) →
    Visits visit s (startTagsList ns) (startTagsList (walkList visit ns s).1)
      (walkList visit ns s).2
  | [], s => .nil s
  | n :: ns, s => (visits_walk n s).append (visits_walkList ns _)

end

/-- A walk leaves the outline as it is, since each of its visits does. -/
theorem outlineList_walkList (ns : List Node) (s : σ) :
    outlineList (walkList visit ns s).1 = outlineList ns := by
  have h : (Walkable.walk visit (⟨ns⟩ : Document) s).1.outline = (⟨ns⟩ : Document).outline := by
    rw [Document.walk_eq_visitEach, Document.outline_visitEach]
  exact Document.mk.inj h

/-- **Nodes are walked over in order**, with the state from before and the state from after.
-/
structure WalkedOver (visit : Visitor σ) (ns : List Node) (s : σ) (ns' : List Node) (s' : σ) :
    Prop where
  /-- The shape, the names and the texts are the same. -/
  outline : outlineList ns' = outlineList ns
  /-- There is one start tag for each way that leads to an element, in the order of a
  dictionary. -/
  order : ∃ ways : List (List Nat), ways.Pairwise (· < ·) ∧
    (∀ way, way ∈ ways ↔ (tagAmong? ns way).isSome) ∧
    ways.map (tagAmong? ns) = (startTagsList ns).map some ∧
    ways.map (tagAmong? ns') = (startTagsList ns').map some
  /-- The state has gone through all of them. -/
  state : s' = Visitor.after visit s (startTagsList ns)
  /-- Each has the attributes that it was given when the state had gone through those before
  it. -/
  attributes : ∀ k, (startTagsList ns')[k]? = (startTagsList ns)[k]?.map
    (StartTag.changed fun start =>
      (visit start (Visitor.after visit s ((startTagsList ns).take k))).1)

theorem walkedOver_walkList (ns : List Node) (s : σ) :
    WalkedOver visit ns s (walkList visit ns s).1 (walkList visit ns s).2 where
  outline := outlineList_walkList visit ns s
  order := by
    have hways := waysList_of_outline (outlineList_walkList visit ns s)
    refine ⟨waysList ns, pairwise_waysList ns, fun way => mem_waysList_iff_isSome,
      map_tagAmong?_waysList ns, ?_⟩
    rw [← hways]
    exact map_tagAmong?_waysList _
  state := (visits_walkList visit ns s).state_eq
  attributes := (visits_walkList visit ns s).getElem?_eq

end Node

/-- **A walk goes down the list of the start tags**, in document order and once, whatever is
done on the way and in whatever state it begins. This is so of documents and of elements. -/
theorem Walkable.walk_in_order {σ : Type} (visit : Visitor σ) (s : σ) :
    (∀ d : Document, Node.WalkedOver visit d.children s
      (Walkable.walk visit d s).1.children (Walkable.walk visit d s).2) ∧
    ∀ e : Element, Node.WalkedOver visit [e.toNode] s
      [(Walkable.walk visit e s).1.toNode] (Walkable.walk visit e s).2 :=
  ⟨fun d => Node.walkedOver_walkList visit d.children s,
    fun e => Node.walkedOver_walkList visit [e.toNode] s⟩

example : (Walkable.walk (fun start names => (start.attributes, names ++ [start.name]))
    (⟨[.element (.named "div") [.element (.named "span") []], .text "text",
      .element (.named "script") []]⟩ : Document) []).2 = ["div", "span", "script"] := by decide

end Relink
