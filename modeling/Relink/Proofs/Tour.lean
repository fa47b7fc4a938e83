import Mathlib.Data.List.Count
import Mathlib.Logic.Function.Iterate
import Relink.Proofs.Walk

/-!
# Tours

The contract of a tree says little about its walk: every element is visited at least
once, in any order. A *tour* uses all of that freedom (`Tour`). It is a document with a
list of places, and its walk visits the element at each of them in turn, the same one
again where a place is repeated. It keeps to the contract if its places are those of the
document, all of them (`Tour.Complete`); the ordinary walk is the tour of all places in
order (`Document.walk_eq_visitEach`).

Places are counted in walk order, so they are positions in the list of start tags. A
visit changes the start tag at its place and nothing else (`Document.startTags_visitAt`
and `Document.outline_visitAt`), and a document is settled by its outline and its start
tags (`Document.eq_of_outline`). What a tour does can therefore be read off that list.
Where a visitor gives back attributes that depend on the start tag alone, every start tag
is changed as often as the tour comes by (`Tour.getElem?_startTags_walk`): the order of
the visits does not matter, only their number does, and even the number does not if a
second change adds nothing to the first (`Tour.walk_eq_mapTags`).
-/

namespace Relink

/-- A start tag with its attributes changed. -/
def StartTag.changed (f : StartTag → Attributes) (s : StartTag) : StartTag := ⟨s.name, f s⟩

/-! ### Changing one item of a list -/

section Lists

variable {α : Type} {g : α → α}

theorem modify_append_of_lt {as : List α} {i : Nat} (h : i < as.length) (bs : List α) :
    (as ++ bs).modify i g = as.modify i g ++ bs := by
  refine List.ext_getElem? fun j => ?_
  rcases Nat.lt_or_ge j as.length with hj | hj
  · rw [List.getElem?_modify, List.getElem?_append_left hj,
      List.getElem?_append_left (by simpa using hj), List.getElem?_modify]
  · have hne : i ≠ j := by omega
    simp [List.getElem?_append_right, hj, hne]

theorem modify_append_add (as bs : List α) (i : Nat) :
    (as ++ bs).modify (as.length + i) g = as ++ bs.modify i g :=
  List.modifyTailIdx_add _ i as bs

/-- An item is changed as often as its position is listed. -/
theorem getElem?_foldl_modify (is : List Nat) (as : List α) (j : Nat) :
    (is.foldl (fun as i => as.modify i g) as)[j]? = as[j]?.map g^[is.count j] := by
  induction is generalizing as with
  | nil => simp
  | cons i is ih =>
    rw [List.foldl_cons, ih, List.getElem?_modify, List.count_cons, Option.map_eq_map,
      Option.map_map]
    congr 1
    by_cases h : i = j <;> simp [h, Function.comp_def]

end Lists

/-! ### Start tags and outlines -/

namespace Node

mutual

theorem startTags_mapTags (f : StartTag → Attributes) : (n : Node) →
    (n.mapTags f).startTags = n.startTags.map (StartTag.changed f)
  | .text _ => rfl
  | .element start children => by
    rw [mapTags, startTags, startTags, List.map_cons, startTagsList_mapTagsList f children]
    rfl

theorem startTagsList_mapTagsList (f : StartTag → Attributes) : (ns : List Node) →
    startTagsList (mapTagsList f ns) = (startTagsList ns).map (StartTag.changed f)
  | [] => rfl
  | n :: ns => by
    rw [mapTagsList, startTagsList, startTagsList, List.map_append, startTags_mapTags f n,
      startTagsList_mapTagsList f ns]

end

/-- A node without its attributes. -/
def outline (n : Node) : Node := n.mapTags fun _ => Table.empty

/-- Nodes without their attributes. -/
def outlineList (ns : List Node) : List Node := mapTagsList (fun _ => Table.empty) ns

theorem outline_element (start : StartTag) (children : List Node) :
    outline (.element start children) =
      .element (.named start.name) (outlineList children) := rfl

theorem outlineList_cons (n : Node) (ns : List Node) :
    outlineList (n :: ns) = n.outline :: outlineList ns := rfl

theorem length_startTags_of_outline {n n' : Node} (h : n.outline = n'.outline) :
    n.startTags.length = n'.startTags.length := by
  have htags := congrArg startTags h
  rw [outline, outline, startTags_mapTags, startTags_mapTags] at htags
  simpa using congrArg List.length htags

mutual

/-- A node is settled by its outline and its start tags. -/
theorem eq_of_outline : (n n' : Node) → n.outline = n'.outline → n.startTags = n'.startTags →
    n = n'
  | .text _, .text _, ho, _ => ho
  | .text _, .element _ _, ho, _ => Node.noConfusion ho
  | .element _ _, .text _, ho, _ => Node.noConfusion ho
  | .element start children, .element start' children', ho, ht => by
    rw [outline_element, outline_element] at ho
    obtain ⟨hstart, htags⟩ := List.cons.inj ht
    rw [hstart, eqList_of_outline children children' (Node.element.inj ho).2 htags]

theorem eqList_of_outline : (ns ns' : List Node) → outlineList ns = outlineList ns' →
    startTagsList ns = startTagsList ns' → ns = ns'
  | [], [], _, _ => rfl
  | [], _ :: _, ho, _ => absurd ho.symm (List.cons_ne_nil _ _)
  | _ :: _, [], ho, _ => absurd ho (List.cons_ne_nil _ _)
  | n :: ns, n' :: ns', ho, ht => by
    rw [outlineList_cons, outlineList_cons] at ho
    obtain ⟨hn, hns⟩ := List.cons.inj ho
    -- the outlines tell how many of the start tags belong to the first node
    obtain ⟨htags, htagsList⟩ := List.append_inj ht (length_startTags_of_outline hn)
    rw [eq_of_outline n n' hn htags, eqList_of_outline ns ns' hns htagsList]

end

/-! ### Visits -/

section Visits

variable {σ : Type}

mutual

/-- Visits the element at a place of a node. -/
def visitAt (visit : Visitor σ) : Node → Nat → StateM σ Node
  | .text s, _ => pure (.text s)
  | .element start children, 0 => do
    let attributes ← visit start
    pure (.element ⟨start.name, attributes⟩ children)
  | .element start children, i + 1 => do
    let children ← visitListAt visit children i
    pure (.element start children)

/-- Visits the element at a place of nodes. -/
def visitListAt (visit : Visitor σ) : List Node → Nat → StateM σ (List Node)
  | [], _ => pure []
  | n :: ns, i =>
    if i < n.startTags.length then do
      let n ← visitAt visit n i
      pure (n :: ns)
    else do
      let ns ← visitListAt visit ns (i - n.startTags.length)
      pure (n :: ns)

end

variable (visit : Visitor σ)

theorem visitListAt_of_lt {n : Node} {ns : List Node} {i : Nat} (h : i < n.startTags.length)
    (s : σ) : visitListAt visit (n :: ns) i s =
      ((visitAt visit n i s).1 :: ns, (visitAt visit n i s).2) := by
  rw [visitListAt, if_pos h]
  rfl

theorem visitListAt_add {n : Node} {ns : List Node} {len : Nat} (h : n.startTags.length = len)
    (i : Nat) (s : σ) : visitListAt visit (n :: ns) (len + i) s =
      (n :: (visitListAt visit ns i s).1, (visitListAt visit ns i s).2) := by
  have hi : len + i - n.startTags.length = i := by omega
  rw [visitListAt, if_neg (by omega), hi]
  rfl

mutual

/-- A visit leaves the outline as it is. -/
theorem outline_visitAt : (n : Node) → (i : Nat) → (s : σ) →
    (visitAt visit n i s).1.outline = n.outline
  | .text _, _, _ => rfl
  | .element _ _, 0, _ => rfl
  | .element start children, i + 1, s => by
    have hvisit : visitAt visit (.element start children) (i + 1) s =
        (.element start (visitListAt visit children i s).1,
          (visitListAt visit children i s).2) := rfl
    rw [hvisit, outline_element, outline_element, outlineList_visitListAt children]

theorem outlineList_visitListAt : (ns : List Node) → (i : Nat) → (s : σ) →
    outlineList (visitListAt visit ns i s).1 = outlineList ns
  | [], _, _ => rfl
  | n :: ns, i, s => by
    rcases Nat.lt_or_ge i n.startTags.length with h | h
    · rw [visitListAt_of_lt visit h, outlineList_cons, outlineList_cons, outline_visitAt n]
    · obtain ⟨j, rfl⟩ := Nat.exists_eq_add_of_le h
      rw [visitListAt_add visit rfl, outlineList_cons, outlineList_cons,
        outlineList_visitListAt ns]

end

mutual

/-- A visit changes the start tag at its place. -/
theorem startTags_visitAt : (n : Node) → (i : Nat) → (s : σ) →
    (visitAt visit n i s).1.startTags =
      n.startTags.modify i (StartTag.changed fun start => (visit start s).1)
  | .text _, i, _ => (List.modify_nil _ i).symm
  | .element _ _, 0, _ => rfl
  | .element start children, i + 1, s => by
    have hvisit : visitAt visit (.element start children) (i + 1) s =
        (.element start (visitListAt visit children i s).1,
          (visitListAt visit children i s).2) := rfl
    rw [hvisit, startTags, startTags, List.modify_succ_cons,
      startTagsList_visitListAt children]

theorem startTagsList_visitListAt : (ns : List Node) → (i : Nat) → (s : σ) →
    startTagsList (visitListAt visit ns i s).1 =
      (startTagsList ns).modify i (StartTag.changed fun start => (visit start s).1)
  | [], i, _ => (List.modify_nil _ i).symm
  | n :: ns, i, s => by
    rcases Nat.lt_or_ge i n.startTags.length with h | h
    · rw [visitListAt_of_lt visit h, startTagsList, startTagsList, startTags_visitAt n,
        modify_append_of_lt h]
    · obtain ⟨j, rfl⟩ := Nat.exists_eq_add_of_le h
      rw [visitListAt_add visit rfl, startTagsList, startTagsList, startTagsList_visitListAt ns,
        modify_append_add]

end

end Visits

/-! ### The ordinary walk, visit by visit -/

section InOrder

variable {σ : Type}

/-- Visits the elements at several places of a node, one after the other. -/
def visitEach (visit : Visitor σ) (places : List Nat) (n : Node) : StateM σ Node :=
  places.foldlM (visitAt visit) n

/-- Visits the elements at several places of nodes, one after the other. -/
def visitListEach (visit : Visitor σ) (places : List Nat) (ns : List Node) :
    StateM σ (List Node) :=
  places.foldlM (visitListAt visit) ns

variable {visit : Visitor σ}

theorem visitEach_cons (i : Nat) (places : List Nat) (n : Node) (s : σ) :
    visitEach visit (i :: places) n s =
      visitEach visit places (visitAt visit n i s).1 (visitAt visit n i s).2 := rfl

theorem visitListEach_cons (i : Nat) (places : List Nat) (ns : List Node) (s : σ) :
    visitListEach visit (i :: places) ns s =
      visitListEach visit places (visitListAt visit ns i s).1 (visitListAt visit ns i s).2 := rfl

theorem visitListEach_append (places places' : List Nat) (ns : List Node) (s : σ) :
    visitListEach visit (places ++ places') ns s =
      visitListEach visit places' (visitListEach visit places ns s).1
        (visitListEach visit places ns s).2 := by
  rw [visitListEach, List.foldlM_append]
  rfl

theorem outline_visitEach (places : List Nat) (n : Node) (s : σ) :
    (visitEach visit places n s).1.outline = n.outline := by
  induction places generalizing n s with
  | nil => rfl
  | cons i places ih => rw [visitEach_cons, ih, outline_visitAt]

/-- Visits that all go inside an element are visits to what is inside. -/
theorem visitEach_element (start : StartTag) (places : List Nat) (children : List Node) (s : σ) :
    visitEach visit (places.map Nat.succ) (.element start children) s =
      (.element start (visitListEach visit places children s).1,
        (visitListEach visit places children s).2) := by
  induction places generalizing children s with
  | nil => rfl
  | cons i places ih =>
    rw [List.map_cons, visitEach_cons, visitListEach_cons]
    exact ih (visitListAt visit children i s).1 (visitListAt visit children i s).2

/-- Visits that all go to the first node leave the others alone. -/
theorem visitListEach_head {places : List Nat} {n : Node}
    (h : ∀ i ∈ places, i < n.startTags.length) (ns : List Node) (s : σ) :
    visitListEach visit places (n :: ns) s =
      ((visitEach visit places n s).1 :: ns, (visitEach visit places n s).2) := by
  induction places generalizing n s with
  | nil => rfl
  | cons i places ih =>
    obtain ⟨hi, hplaces⟩ := List.forall_mem_cons.1 h
    have hlength := length_startTags_of_outline (outline_visitAt visit n i s)
    rw [visitListEach_cons, visitListAt_of_lt visit hi, visitEach_cons, ih (hlength ▸ hplaces)]

/-- Visits that all go behind the first node leave it alone. -/
theorem visitListEach_tail (places : List Nat) {n : Node} {len : Nat}
    (h : n.startTags.length = len) (ns : List Node) (s : σ) :
    visitListEach visit (places.map (len + ·)) (n :: ns) s =
      (n :: (visitListEach visit places ns s).1, (visitListEach visit places ns s).2) := by
  induction places generalizing ns s with
  | nil => rfl
  | cons i places ih =>
    rw [List.map_cons, visitListEach_cons, visitListEach_cons, visitListAt_add visit h, ih]

mutual

/-- A node is walked by visiting all of its elements in order. -/
theorem walk_eq_visitEach : (n : Node) → (s : σ) →
    walk visit n s = visitEach visit (List.range n.startTags.length) n s
  | .text _, _ => rfl
  | .element start children, s => by
    rw [startTags, List.length_cons, List.range_succ_eq_map, visitEach_cons, walk_element,
      walkList_eq_visitListEach children]
    exact (visitEach_element _ _ children _).symm

theorem walkList_eq_visitListEach : (ns : List Node) → (s : σ) →
    walkList visit ns s = visitListEach visit (List.range (startTagsList ns).length) ns s
  | [], _ => rfl
  | n :: ns, s => by
    have hlength := length_startTags_of_outline
      (@outline_visitEach _ visit (List.range n.startTags.length) n s)
    rw [startTagsList, List.length_append, List.range_add, visitListEach_append,
      visitListEach_head (fun i hi => List.mem_range.1 hi), visitListEach_tail _ hlength,
      ← walk_eq_visitEach n, ← walkList_eq_visitListEach ns, walkList_cons]

end

end InOrder

end Node

/-! ### Documents -/

namespace Document

variable {σ : Type}

/-- A document without its attributes. -/
def outline (d : Document) : Document := d.mapTags fun _ => Table.empty

/-- Visits the element at a place of a document. -/
def visitAt (visit : Visitor σ) (d : Document) (i : Nat) : StateM σ Document := do
  let children ← Node.visitListAt visit d.children i
  pure ⟨children⟩

/-- Visits the elements at several places of a document, one after the other. -/
def visitEach (visit : Visitor σ) (places : List Nat) (d : Document) : StateM σ Document :=
  places.foldlM (visitAt visit) d

theorem startTags_mapTags (f : StartTag → Attributes) (d : Document) :
    (d.mapTags f).startTags = d.startTags.map (StartTag.changed f) :=
  Node.startTagsList_mapTagsList f d.children

/-- A document is settled by its outline and its start tags. -/
theorem eq_of_outline {d d' : Document} (ho : d.outline = d'.outline)
    (ht : d.startTags = d'.startTags) : d = d' :=
  congrArg Document.mk
    (Node.eqList_of_outline d.children d'.children (Document.mk.inj ho) ht)

variable {visit : Visitor σ}

theorem visitEach_cons (i : Nat) (places : List Nat) (d : Document) (s : σ) :
    visitEach visit (i :: places) d s =
      visitEach visit places (visitAt visit d i s).1 (visitAt visit d i s).2 := rfl

theorem visitEach_children (places : List Nat) (d : Document) (s : σ) :
    visitEach visit places d s =
      (⟨(Node.visitListEach visit places d.children s).1⟩,
        (Node.visitListEach visit places d.children s).2) := by
  induction places generalizing d s with
  | nil => rfl
  | cons i places ih =>
    rw [visitEach_cons, ih, Node.visitListEach_cons]
    rfl

/-- **The ordinary walk is the tour of all places in order.** -/
theorem walk_eq_visitEach (d : Document) (s : σ) :
    Walkable.walk visit d s = visitEach visit (List.range d.startTags.length) d s := by
  rw [visitEach_children, startTags, ← Node.walkList_eq_visitListEach]
  rfl

/-- A visit leaves the outline as it is. -/
theorem outline_visitAt (d : Document) (i : Nat) (s : σ) :
    (visitAt visit d i s).1.outline = d.outline :=
  congrArg Document.mk (Node.outlineList_visitListAt visit d.children i s)

/-- A visit changes the start tag at its place. -/
theorem startTags_visitAt (d : Document) (i : Nat) (s : σ) :
    (visitAt visit d i s).1.startTags =
      d.startTags.modify i (StartTag.changed fun start => (visit start s).1) :=
  Node.startTagsList_visitListAt visit d.children i s

theorem outline_visitEach (places : List Nat) (d : Document) (s : σ) :
    (visitEach visit places d s).1.outline = d.outline := by
  induction places generalizing d s with
  | nil => rfl
  | cons i places ih => rw [visitEach_cons, ih, outline_visitAt]

theorem startTags_visitEach {f : StartTag → Attributes} (h : ∀ start s, (visit start s).1 = f start)
    (places : List Nat) (d : Document) (s : σ) :
    (visitEach visit places d s).1.startTags =
      places.foldl (fun tags i => tags.modify i (StartTag.changed f)) d.startTags := by
  induction places generalizing d s with
  | nil => rfl
  | cons i places ih =>
    have hf : (fun start => (visit start s).1) = f := funext fun start => h start s
    rw [visitEach_cons, ih, startTags_visitAt, hf, List.foldl_cons]

end Document

/-! ### Tours -/

/-- **A tour**: a document that is walked by visiting the elements at certain places, in
the order in which these are listed and as often as they are. -/
structure Tour where
  /-- The document that is walked. -/
  document : Document
  /-- Where the walk goes. -/
  places : List Nat

namespace Tour

instance : Walkable Tour where
  walk visit t := do
    let d ← t.document.visitEach visit t.places
    pure ⟨d, t.places⟩

/-- The tour comes to every element, and only to elements. -/
def Complete (t : Tour) : Prop := ∀ i, i ∈ t.places ↔ i < t.document.startTags.length

variable {σ : Type} {visit : Visitor σ} {f : StartTag → Attributes}

theorem document_walk (t : Tour) (s : σ) :
    (Walkable.walk visit t s).1.document = (t.document.visitEach visit t.places s).1 := rfl

/-- **A tour changes every start tag as often as it comes by**, in whatever order. -/
theorem getElem?_startTags_walk (h : ∀ start s, (visit start s).1 = f start) (t : Tour) (s : σ)
    (i : Nat) : (Walkable.walk visit t s).1.document.startTags[i]? =
      t.document.startTags[i]?.map (StartTag.changed f)^[t.places.count i] := by
  rw [document_walk, Document.startTags_visitEach h, getElem?_foldl_modify]

/-- **Tours and walks come to the same** if a second change adds nothing to the first. -/
theorem walk_eq_mapTags (h : ∀ start s, (visit start s).1 = f start)
    (hf : ∀ start, f (start.changed f) = f start) {t : Tour} (ht : t.Complete) (s : σ) :
    (Walkable.walk visit t s).1.document = t.document.mapTags f := by
  have htwice : ∀ start : StartTag, (start.changed f).changed f = start.changed f :=
    fun start => congrArg (StartTag.mk start.name) (hf start)
  have houtline : (t.document.mapTags f).outline = t.document.outline :=
    Document.mapTags_mapTags f _ t.document
  refine Document.eq_of_outline ?_ (List.ext_getElem? fun i => ?_)
  · rw [document_walk, Document.outline_visitEach, houtline]
  · rw [getElem?_startTags_walk h, Document.startTags_mapTags, List.getElem?_map]
    rcases hi : t.document.startTags[i]? with _ | start
    · rfl
    · -- the tour comes by at least once, and all visits after that change nothing
      have hmem : i ∈ t.places := (ht i).2 (List.getElem?_eq_some_iff.1 hi).1
      obtain ⟨k, hk⟩ := Nat.exists_eq_add_one.2 (List.count_pos_iff.2 hmem)
      rw [hk, Option.map_some, Option.map_some, Function.iterate_succ_apply,
        Function.iterate_fixed (htwice start)]

/-- Tours and walks come to the same only then: a tour that goes twice to the one element
of a document tells the difference. -/
theorem walk_eq_mapTags_iff (h : ∀ start s, (visit start s).1 = f start) {s : σ} :
    (∀ t : Tour, t.Complete →
      (Walkable.walk visit t s).1.document = t.document.mapTags f) ↔
      ∀ start : StartTag, f (start.changed f) = f start := by
  refine ⟨fun hwalk start => ?_, fun hf t ht => walk_eq_mapTags h hf ht s⟩
  have hcomplete : Complete ⟨⟨[.element start []]⟩, [0, 0]⟩ := by
    intro i
    simp [Document.startTags, Node.startTagsList, Node.startTags]
  have htwice := getElem?_startTags_walk h ⟨⟨[.element start []]⟩, [0, 0]⟩ s 0
  rw [hwalk _ hcomplete, Document.startTags_mapTags] at htwice
  simpa [Document.startTags, Node.startTagsList, Node.startTags, StartTag.changed, eq_comm]
    using htwice

end Tour

end Relink
