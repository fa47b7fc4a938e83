import Relink.Markup.Walk

/-!
# Changing all attributes at once

A walk changes a tree element by element, with a state that each visit hands on to
the next. Where a visitor gives back attributes that depend on the start tag alone,
the order of the visits can no longer be seen in the tree, and walking is the same
as changing all start tags at once (`Node.mapTags`). Only the state still goes
through the start tags one after the other, in document order.

The tree that is left is then easy to speak about: its names, its texts and its
shape are those of the tree before (`Document.mapTags_mapTags` with a constant).
-/

namespace Relink

namespace Node

mutual

/-- A node with the attributes of every element inside it changed, each by its own
start tag. -/
def mapTags (f : StartTag → Attributes) : Node → Node
  | .text s => .text s
  | .element start children => .element ⟨start.name, f start⟩ (mapTagsList f children)

/-- Nodes with the attributes of every element inside them changed. -/
def mapTagsList (f : StartTag → Attributes) : List Node → List Node
  | [] => []
  | n :: ns => mapTags f n :: mapTagsList f ns

end

/-! ### Two changes, one after the other -/

section Twice

variable (f g : StartTag → Attributes)

mutual

theorem mapTags_mapTags : (n : Node) →
    (n.mapTags f).mapTags g = n.mapTags (fun s => g ⟨s.name, f s⟩)
  | .text _ => rfl
  | .element start children => by
    simp only [mapTags, mapTagsList_mapTagsList children]

theorem mapTagsList_mapTagsList : (ns : List Node) →
    mapTagsList g (mapTagsList f ns) = mapTagsList (fun s => g ⟨s.name, f s⟩) ns
  | [] => rfl
  | n :: ns => by
    simp only [mapTagsList, mapTags_mapTags n, mapTagsList_mapTagsList ns]

end

end Twice

/-! ### Walking with attributes that do not depend on the state -/

section Walks

variable {σ : Type} {visit : Visitor σ}

theorem walk_element (start : StartTag) (children : List Node) (s : σ) :
    walk visit (.element start children) s =
      (.element ⟨start.name, (visit start s).1⟩ (walkList visit children (visit start s).2).1,
        (walkList visit children (visit start s).2).2) := rfl

theorem walkList_cons (n : Node) (ns : List Node) (s : σ) :
    walkList visit (n :: ns) s =
      ((walk visit n s).1 :: (walkList visit ns (walk visit n s).2).1,
        (walkList visit ns (walk visit n s).2).2) := rfl

variable {f : StartTag → Attributes}

mutual

theorem walk_eq_mapTags (h : ∀ start s, (visit start s).1 = f start) : (n : Node) → (s : σ) →
    walk visit n s =
      (n.mapTags f, n.startTags.foldl (fun s start => (visit start s).2) s)
  | .text _, _ => rfl
  | .element start children, s => by
    rw [walk_element, walkList_eq_mapTagsList h children, h]
    rfl

theorem walkList_eq_mapTagsList (h : ∀ start s, (visit start s).1 = f start) :
    (ns : List Node) → (s : σ) →
    walkList visit ns s =
      (mapTagsList f ns, (startTagsList ns).foldl (fun s start => (visit start s).2) s)
  | [], _ => rfl
  | n :: ns, s => by
    -- the state that the first node hands on is the fold over its start tags
    rw [walkList_cons, walk_eq_mapTags h n, walkList_eq_mapTagsList h ns, startTagsList,
      List.foldl_append]
    rfl

end

end Walks

end Node

namespace Element

/-- An element with the attributes of every element inside it, and its own, changed. -/
def mapTags (f : StartTag → Attributes) (e : Element) : Element :=
  ⟨⟨e.start.name, f e.start⟩, Node.mapTagsList f e.children⟩

theorem startTags_toNode (e : Element) : e.toNode.startTags = e.startTags := rfl

theorem walk_eq_mapTags {σ : Type} {visit : Visitor σ} {f : StartTag → Attributes}
    (h : ∀ start s, (visit start s).1 = f start) (e : Element) (s : σ) :
    Walkable.walk visit e s =
      (e.mapTags f, e.startTags.foldl (fun s start => (visit start s).2) s) := by
  have hw : Walkable.walk visit e s =
      (⟨⟨e.start.name, (visit e.start s).1⟩,
          (Node.walkList visit e.children (visit e.start s).2).1⟩,
        (Node.walkList visit e.children (visit e.start s).2).2) := rfl
  rw [hw, Node.walkList_eq_mapTagsList h, h]
  rfl

end Element

namespace Document

/-- A document with the attributes of every element changed. -/
def mapTags (f : StartTag → Attributes) (d : Document) : Document :=
  ⟨Node.mapTagsList f d.children⟩

theorem mapTags_mapTags (f g : StartTag → Attributes) (d : Document) :
    (d.mapTags f).mapTags g = d.mapTags (fun s => g ⟨s.name, f s⟩) := by
  simp only [mapTags, Node.mapTagsList_mapTagsList]

theorem walk_eq_mapTags {σ : Type} {visit : Visitor σ} {f : StartTag → Attributes}
    (h : ∀ start s, (visit start s).1 = f start) (d : Document) (s : σ) :
    Walkable.walk visit d s =
      (d.mapTags f, d.startTags.foldl (fun s start => (visit start s).2) s) := by
  have hw : Walkable.walk visit d s =
      (⟨(Node.walkList visit d.children s).1⟩, (Node.walkList visit d.children s).2) := rfl
  rw [hw, Node.walkList_eq_mapTagsList h]
  rfl

end Document

end Relink
