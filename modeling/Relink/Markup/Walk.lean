import Relink.Markup.Node

/-!
# Walking markup trees

A walk brings every element of a tree before a visitor, which may update a state
of its own and gives back the element's attributes. It sees the start tag only:
the element's name, its children and the texts are out of its reach, by its type.

What a caller may rely on for any tree is little – every element is visited, in
some order, perhaps more than once – so a tree is whatever comes with a walk
(`Walkable`). Documents and elements visit every element once, a parent before
what is inside it and siblings from left to right.
-/

namespace Relink

/-- What is done at an element: a state is updated, and the attributes that the
element has from now on are given back. -/
abbrev Visitor (σ : Type) := StartTag → StateM σ Attributes

/-- A tree that a visitor can be led through. -/
class Walkable (T : Type) where
  /-- Visits every element at least once, in any order. -/
  walk {σ : Type} (visit : Visitor σ) (tree : T) : StateM σ T

namespace Node

variable {σ : Type}

mutual

/-- Visits a node: an element before its children, a text not at all. -/
def walk (visit : Visitor σ) : Node → StateM σ Node
  | .text s => pure (.text s)
  | .element start children => do
    let attributes ← visit start
    let children ← walkList visit children
    pure (.element ⟨start.name, attributes⟩ children)

/-- Visits nodes from left to right. -/
def walkList (visit : Visitor σ) : List Node → StateM σ (List Node)
  | [] => pure []
  | n :: ns => do
    let n ← walk visit n
    let ns ← walkList visit ns
    pure (n :: ns)

end

mutual

/-- The start tags of a node in walk order. -/
def startTags : Node → List StartTag
  | .text _ => []
  | .element start children => start :: startTagsList children

/-- The start tags of nodes in walk order. -/
def startTagsList : List Node → List StartTag
  | [] => []
  | n :: ns => startTags n ++ startTagsList ns

end

end Node

namespace Element

variable {σ : Type}

/-- Visits an element, then what is inside it. -/
def walk (visit : Visitor σ) (e : Element) : StateM σ Element := do
  let attributes ← visit e.start
  let children ← Node.walkList visit e.children
  pure ⟨⟨e.start.name, attributes⟩, children⟩

instance : Walkable Element := ⟨walk⟩

/-- The start tags of an element in walk order, its own first. -/
def startTags (e : Element) : List StartTag := e.start :: Node.startTagsList e.children

end Element

namespace Document

variable {σ : Type}

/-- Visits the elements of a document in document order. -/
def walk (visit : Visitor σ) (d : Document) : StateM σ Document := do
  let children ← Node.walkList visit d.children
  pure ⟨children⟩

instance : Walkable Document := ⟨walk⟩

/-- The start tags of a document in walk order. -/
def startTags (d : Document) : List StartTag := Node.startTagsList d.children

end Document

end Relink
