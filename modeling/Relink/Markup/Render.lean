import Relink.Markup.Node

/-!
# Markup as text

Every element is printed with a start tag and an end tag, its attributes between
them in order, each value in double quotes. Two escape modes keep the text
readable without ambiguity: in an attribute value the ampersand and the quote are
escaped, in a text the ampersand and the two angle brackets. Names are printed as
they are.

The printer takes the text that follows and puts the node in front of it, so that
a node inside many others is written once and not copied at each level.
-/

namespace Relink

/-- A character of an attribute value as it is printed. -/
def escapeValueChar (c : Char) : List Char :=
  match c with
  | '&' => ['&', 'a', 'm', 'p', ';']
  | '"' => ['&', 'q', 'u', 'o', 't', ';']
  | c => [c]

/-- A character of a text as it is printed. -/
def escapeTextChar (c : Char) : List Char :=
  match c with
  | '&' => ['&', 'a', 'm', 'p', ';']
  | '<' => ['&', 'l', 't', ';']
  | '>' => ['&', 'g', 't', ';']
  | c => [c]

/-- An attribute value as it is printed between its quotes. -/
def escapeValue (s : String) : List Char := s.toList.flatMap escapeValueChar

/-- A text as it is printed. -/
def escapeText (s : String) : List Char := s.toList.flatMap escapeTextChar

namespace StartTag

/-- One attribute, after the blank that separates it from what is before. -/
def markupAttribute (a : String × String) : List Char :=
  ' ' :: a.1.toList ++ '=' :: '"' :: escapeValue a.2 ++ ['"']

/-- A start tag. -/
def markup (s : StartTag) : List Char :=
  '<' :: s.name.toList ++ s.attributes.entries.flatMap markupAttribute ++ ['>']

/-- The end tag that closes a start tag. -/
def endMarkup (s : StartTag) : List Char := '<' :: '/' :: s.name.toList ++ ['>']

end StartTag

namespace Node

mutual

/-- A node in front of the text that follows it. -/
def markup : Node → List Char → List Char
  | .text s, rest => escapeText s ++ rest
  | .element start children, rest =>
    start.markup ++ markupList children (start.endMarkup ++ rest)

/-- Nodes in front of the text that follows them. -/
def markupList : List Node → List Char → List Char
  | [], rest => rest
  | n :: ns, rest => markup n (markupList ns rest)

end

/-- A node as text. -/
def render (n : Node) : String := String.ofList (n.markup [])

end Node

namespace Element

/-- An element as text. -/
def render (e : Element) : String := e.toNode.render

end Element

namespace Document

/-- A document as text. -/
def render (d : Document) : String := String.ofList (Node.markupList d.children [])

end Document

end Relink
