import Relink.Markup.StartTag

/-!
# Markup trees

A node is a text or an element with nodes inside; a document is a list of nodes.
An element on its own is kept apart from the node it can be turned into, since a
tree to be walked may be a single element, and a text is no tree.
-/

namespace Relink

/-- A piece of markup. -/
inductive Node where
  /-- A text, as its characters are and not as they are printed. -/
  | text (content : String)
  /-- An element with what is inside it. -/
  | element (start : StartTag) (children : List Node)

/-- An element as a tree of its own. -/
structure Element where
  /-- The name and the attributes. -/
  start : StartTag
  /-- What is inside. -/
  children : List Node

/-- A document: what stands at top level, in order. -/
structure Document where
  /-- The nodes at top level. -/
  children : List Node

namespace Node

mutual

/-- Equality of nodes can be decided. -/
def decEq : (a b : Node) → Decidable (a = b)
  | .text s, .text t =>
    if h : s = t then isTrue (by rw [h]) else isFalse (fun e => h (Node.text.inj e))
  | .text _, .element _ _ => isFalse Node.noConfusion
  | .element _ _, .text _ => isFalse Node.noConfusion
  | .element s as, .element t bs =>
    if h : s = t then
      match decEqList as bs with
      | isTrue h' => isTrue (by rw [h, h'])
      | isFalse h' => isFalse (fun e => h' (Node.element.inj e).2)
    else isFalse (fun e => h (Node.element.inj e).1)

/-- Equality of lists of nodes can be decided. -/
def decEqList : (as bs : List Node) → Decidable (as = bs)
  | [], [] => isTrue rfl
  | [], _ :: _ => isFalse (fun e => by cases e)
  | _ :: _, [] => isFalse (fun e => by cases e)
  | a :: as, b :: bs =>
    match decEq a b with
    | isTrue h =>
      match decEqList as bs with
      | isTrue h' => isTrue (by rw [h, h'])
      | isFalse h' => isFalse (fun e => h' (List.cons.inj e).2)
    | isFalse h => isFalse (fun e => h (List.cons.inj e).1)

end

instance : DecidableEq Node := decEq

end Node

instance : Inhabited Node := ⟨.text ""⟩

instance : Inhabited Element := ⟨⟨.named "", []⟩⟩

instance : Inhabited Document := ⟨⟨[]⟩⟩

deriving instance DecidableEq for Element

deriving instance DecidableEq for Document

namespace Element

/-- The element as a node. -/
def toNode (e : Element) : Node := .element e.start e.children

end Element

namespace Document

/-- The document with one more node at its end. -/
def push (d : Document) (n : Node) : Document := ⟨d.children ++ [n]⟩

end Document

end Relink
