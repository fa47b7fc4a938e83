import Relink.Markup.Render
import Relink.Markup.Walk

/-!
# What markup tells

Markup is read back from its marks: an angle bracket begins a tag, a blank ends its name,
a quote ends a value. Nothing inside a tree can take the place of a mark, as far as it is
escaped or, being a name, does not hold any. So a document is settled by its markup up to
what no markup could show (`Document.render_eq_render_iff`): a text leaves no trace of where
it was cut into pieces, nor of pieces that are empty. `Document.normal` joins the pieces and
drops the empty ones, at every level.

The proof takes two equal markups apart from the front. Each part of one – a name, a value,
a start tag, a text – ends where the same part of the other does, because the character
behind it cannot belong to it (`append_inj_of_stop`), and what is behind is again equal.
For a list of nodes, what is behind is the end tag of the element around them or the end
of the document (`Node.Closes`).
-/

namespace Relink

/-! ### Names -/

/-- **The characters of names** are no marks. A single quote is not used as one, and of the
blanks only those that separate attributes in markup are excluded. -/
def isNameChar (c : Char) : Bool :=
  !c.isWhitespace && c != '"' && c != '=' && c != '<' && c != '>' && c != '/'

/-- A name as it may stand in a tag. -/
def IsName (n : String) : Prop := n ≠ "" ∧ ∀ c ∈ n.toList, isNameChar c = true

-- by `List.all`, as there is more than one way to decide something of all characters
instance (n : String) : Decidable (IsName n) :=
  decidable_of_iff (n ≠ "" ∧ n.toList.all isNameChar = true)
    (and_congr_right fun _ => List.all_eq_true)

/-- The element and its attributes have proper names. -/
structure StartTag.IsNamed (s : StartTag) : Prop where
  /-- The name of the element is one. -/
  name : IsName s.name
  /-- The names of the attributes are. -/
  attributes : ∀ n ∈ s.attributes.keys, IsName n

instance (s : StartTag) : Decidable s.IsNamed :=
  decidable_of_iff (IsName s.name ∧ ∀ n ∈ s.attributes.keys, IsName n)
    ⟨fun h => ⟨h.1, h.2⟩, fun h => ⟨h.name, h.attributes⟩⟩

/-- All elements of a document and their attributes have proper names. -/
def Document.IsNamed (d : Document) : Prop := ∀ s ∈ d.startTags, s.IsNamed

instance (d : Document) : Decidable d.IsNamed :=
  inferInstanceAs (Decidable (∀ s ∈ d.startTags, s.IsNamed))

/-! ### Normal documents -/

namespace Node

/-- Puts a node in front of nodes: an empty text vanishes, and a text is joined to a text
behind it. -/
def join : Node → List Node → List Node
  | .text s, .text t :: ns => if s = "" then .text t :: ns else .text (s ++ t) :: ns
  | .text s, ns => if s = "" then ns else .text s :: ns
  | n, ns => n :: ns

mutual

/-- A node with the texts inside it joined. -/
def normal : Node → Node
  | .text s => .text s
  | .element start children => .element start (normalList children)

/-- Nodes with their texts, and those inside them, joined. -/
def normalList : List Node → List Node
  | [] => []
  | n :: ns => join (normal n) (normalList ns)

end

end Node

/-- **The normal form of a document**: no text is empty, and no two stand side by side. -/
def Document.normal (d : Document) : Document := ⟨Node.normalList d.children⟩

/-! ### Where parts end -/

section Parts

variable {α β : Type}

/-- Two parts of equal lists are equal if what is behind them cannot belong to them. -/
theorem append_inj_of_stop {p : α → Prop} {as bs us vs : List α} (ha : ∀ a ∈ as, p a)
    (hb : ∀ b ∈ bs, p b) (hu : ∀ u ∈ us.head?, ¬p u) (hv : ∀ v ∈ vs.head?, ¬p v)
    (h : as ++ us = bs ++ vs) : as = bs ∧ us = vs := by
  induction as generalizing bs with
  | nil =>
    cases bs with
    | nil => exact ⟨rfl, h⟩
    | cons b bs =>
      rw [List.nil_append] at h
      exact absurd (hb b List.mem_cons_self) (hu b (by simp [h]))
  | cons a as ih =>
    cases bs with
    | nil =>
      rw [List.nil_append] at h
      exact absurd (ha a List.mem_cons_self) (hv a (by simp [← h]))
    | cons b bs =>
      rw [List.forall_mem_cons] at ha hb
      obtain ⟨rfl, htail⟩ := List.cons.inj h
      obtain ⟨rfl, hrest⟩ := ih ha.2 hb.2 htail
      exact ⟨rfl, hrest⟩

/-- A code none of whose words begins another one can be read back. -/
theorem flatMap_injective {f : α → List β} (hne : ∀ a, f a ≠ [])
    (hf : ∀ {a b : α} {us vs : List β}, f a ++ us = f b ++ vs → a = b ∧ us = vs)
    {as bs : List α} (h : as.flatMap f = bs.flatMap f) : as = bs := by
  induction as generalizing bs with
  | nil =>
    cases bs with
    | nil => rfl
    | cons b bs => exact absurd h (by simp [hne])
  | cons a as ih =>
    cases bs with
    | nil => exact absurd h (by simp [hne])
    | cons b bs =>
      rw [List.flatMap_cons, List.flatMap_cons] at h
      obtain ⟨rfl, hrest⟩ := hf h
      rw [ih hrest]

end Parts

/-! ### Escapes -/

section Escapes

variable {c d : Char} {us vs : List Char} {s t : String}

theorem escapeValueChar_append_inj (h : escapeValueChar c ++ us = escapeValueChar d ++ vs) :
    c = d ∧ us = vs := by
  unfold escapeValueChar at h
  split at h <;> split at h <;>
    simp only [List.cons_append, List.nil_append, List.cons.injEq] at h <;> grind

theorem escapeTextChar_append_inj (h : escapeTextChar c ++ us = escapeTextChar d ++ vs) :
    c = d ∧ us = vs := by
  unfold escapeTextChar at h
  split at h <;> split at h <;>
    simp only [List.cons_append, List.nil_append, List.cons.injEq] at h <;> grind

theorem escapeValueChar_ne_nil (c : Char) : escapeValueChar c ≠ [] := by
  unfold escapeValueChar
  split <;> simp

theorem escapeTextChar_ne_nil (c : Char) : escapeTextChar c ≠ [] := by
  unfold escapeTextChar
  split <;> simp

theorem escapeValue_injective (h : escapeValue s = escapeValue t) : s = t :=
  String.toList_inj.1 (flatMap_injective escapeValueChar_ne_nil escapeValueChar_append_inj h)

theorem escapeText_injective (h : escapeText s = escapeText t) : s = t :=
  String.toList_inj.1 (flatMap_injective escapeTextChar_ne_nil escapeTextChar_append_inj h)

/-- In a value no quote is left. -/
theorem ne_quote_of_mem_escapeValue (h : c ∈ escapeValue s) : c ≠ '"' := by
  obtain ⟨d, -, hc⟩ := List.mem_flatMap.1 h
  unfold escapeValueChar at hc
  split at hc <;> grind

/-- In a text no bracket is left that could open a tag. -/
theorem ne_bracket_of_mem_escapeText (h : c ∈ escapeText s) : c ≠ '<' := by
  obtain ⟨d, -, hc⟩ := List.mem_flatMap.1 h
  unfold escapeTextChar at hc
  split at hc <;> grind

/-- A text that is not empty is seen to be one from its first character. -/
theorem exists_escapeText_eq_cons (h : s ≠ "") : ∃ c cs, escapeText s = c :: cs ∧ c ≠ '<' := by
  have hne : escapeText s ≠ [] := by
    obtain ⟨c, cs, hs⟩ := List.exists_cons_of_ne_nil (mt String.toList_eq_nil_iff.1 h)
    simp [escapeText, hs, escapeTextChar_ne_nil]
  obtain ⟨c, cs, hc⟩ := List.exists_cons_of_ne_nil hne
  exact ⟨c, cs, hc, ne_bracket_of_mem_escapeText (s := s) (by simp [hc])⟩

end Escapes

/-! ### Tags -/

section Tags

variable {s t : StartTag} {m n : String} {a b : String × String} {us vs : List Char} {c : Char}

/-- A name cannot go on here. -/
def EndsName (us : List Char) : Prop := ∀ u ∈ us.head?, ¬isNameChar u = true

theorem endsName_cons (h : isNameChar c = false) (us : List Char) : EndsName (c :: us) := by
  intro u hu
  rw [List.head?_cons, Option.mem_some_iff] at hu
  simp [← hu, h]

theorem IsName.append_inj (hm : IsName m) (hn : IsName n) (hu : EndsName us) (hv : EndsName vs)
    (h : m.toList ++ us = n.toList ++ vs) : m = n ∧ us = vs := by
  obtain ⟨hname, hrest⟩ := append_inj_of_stop hm.2 hn.2 hu hv h
  exact ⟨String.toList_inj.1 hname, hrest⟩

/-- A name does not begin with what makes an end tag of a start tag. -/
theorem IsName.head (h : IsName n) : ∃ c cs, n.toList = c :: cs ∧ c ≠ '/' := by
  obtain ⟨c, cs, hn⟩ := List.exists_cons_of_ne_nil (mt String.toList_eq_nil_iff.1 h.1)
  refine ⟨c, cs, hn, ?_⟩
  rintro rfl
  exact absurd (h.2 '/' (by simp [hn])) (by decide)

theorem escapeValue_append_inj
    (h : escapeValue m ++ '"' :: us = escapeValue n ++ '"' :: vs) : m = n ∧ us = vs := by
  obtain ⟨hvalue, hrest⟩ := append_inj_of_stop (p := (· ≠ '"'))
    (fun _ => ne_quote_of_mem_escapeValue) (fun _ => ne_quote_of_mem_escapeValue)
    (by simp) (by simp) h
  exact ⟨escapeValue_injective hvalue, (List.cons.inj hrest).2⟩

namespace StartTag

theorem markupAttribute_append (a : String × String) (us : List Char) :
    markupAttribute a ++ us =
      ' ' :: (a.1.toList ++ '=' :: '"' :: (escapeValue a.2 ++ '"' :: us)) := by
  simp [markupAttribute]

theorem markup_append (s : StartTag) (us : List Char) :
    s.markup ++ us =
      '<' :: (s.name.toList ++ (s.attributes.entries.flatMap markupAttribute ++ '>' :: us)) := by
  simp [markup]

theorem endMarkup_append (s : StartTag) (us : List Char) :
    s.endMarkup ++ us = '<' :: '/' :: (s.name.toList ++ '>' :: us) := by
  simp [endMarkup]

theorem markupAttribute_append_inj (ha : IsName a.1) (hb : IsName b.1)
    (h : markupAttribute a ++ us = markupAttribute b ++ vs) : a = b ∧ us = vs := by
  rw [markupAttribute_append, markupAttribute_append] at h
  obtain ⟨hname, hvalue⟩ := ha.append_inj hb (endsName_cons rfl _) (endsName_cons rfl _)
    (List.cons.inj h).2
  obtain ⟨hvalue, hrest⟩ :=
    escapeValue_append_inj (List.cons.inj (List.cons.inj hvalue).2).2
  exact ⟨Prod.ext hname hvalue, hrest⟩

/-- What is behind the name of an element is a blank or the end of the tag. -/
theorem endsName_attributes (es : Entries String) (us : List Char) :
    EndsName (es.flatMap markupAttribute ++ '>' :: us) := by
  cases es with
  | nil => exact endsName_cons rfl us
  | cons a es =>
    rw [List.flatMap_cons, List.append_assoc, markupAttribute_append]
    exact endsName_cons rfl _

theorem attributes_append_inj {es fs : Entries String} (he : ∀ n ∈ Entries.keys es, IsName n)
    (hf : ∀ n ∈ Entries.keys fs, IsName n)
    (h : es.flatMap markupAttribute ++ '>' :: us = fs.flatMap markupAttribute ++ '>' :: vs) :
    es = fs ∧ us = vs := by
  induction es generalizing fs with
  | nil =>
    cases fs with
    | nil => exact ⟨rfl, (List.cons.inj h).2⟩
    | cons b fs => simp [markupAttribute] at h
  | cons a es ih =>
    cases fs with
    | nil => simp [markupAttribute] at h
    | cons b fs =>
      rw [Entries.keys_cons, List.forall_mem_cons] at he hf
      rw [List.flatMap_cons, List.flatMap_cons, List.append_assoc, List.append_assoc] at h
      obtain ⟨rfl, htail⟩ := markupAttribute_append_inj he.1 hf.1 h
      obtain ⟨rfl, hrest⟩ := ih he.2 hf.2 htail
      exact ⟨rfl, hrest⟩

/-- **A start tag is settled by how a text begins with it.** -/
theorem markup_append_inj (hs : s.IsNamed) (ht : t.IsNamed) (h : s.markup ++ us = t.markup ++ vs) :
    s = t ∧ us = vs := by
  rw [markup_append, markup_append] at h
  obtain ⟨hname, hattributes⟩ := hs.name.append_inj ht.name (endsName_attributes _ _)
    (endsName_attributes _ _) (List.cons.inj h).2
  obtain ⟨hentries, hrest⟩ := attributes_append_inj hs.attributes ht.attributes hattributes
  refine ⟨?_, hrest⟩
  obtain ⟨name, attributes⟩ := s
  obtain ⟨name', attributes'⟩ := t
  obtain rfl : name = name' := hname
  obtain rfl : attributes = attributes' := Table.eq_of_entries hentries
  rfl

end StartTag

end Tags

/-! ### Nodes -/

namespace Node

variable {n m : Node} {ns ms : List Node} {us vs : List Char}

/-- The text goes on with an end tag, or it ends: nothing else can be inside the element
that is open. -/
def Closes (us : List Char) : Prop := us = [] ∨ ∃ rest, us = '<' :: '/' :: rest

theorem closes_endMarkup (s : StartTag) (us : List Char) : Closes (s.endMarkup ++ us) :=
  .inr ⟨_, s.endMarkup_append us⟩

/-- A text cannot go on here. -/
def EndsText (us : List Char) : Prop := ∀ u ∈ us.head?, u = '<'

theorem endsText_cons (us : List Char) : EndsText ('<' :: us) := by
  intro u hu
  rw [List.head?_cons, Option.mem_some_iff] at hu
  exact hu.symm

theorem escapeText_append_inj {s t : String} (hu : EndsText us) (hv : EndsText vs)
    (h : escapeText s ++ us = escapeText t ++ vs) : s = t ∧ us = vs := by
  obtain ⟨htext, hrest⟩ := append_inj_of_stop (p := (· ≠ '<'))
    (fun _ => ne_bracket_of_mem_escapeText) (fun _ => ne_bracket_of_mem_escapeText)
    (fun u h hne => hne (hu u h)) (fun v h hne => hne (hv v h)) h
  exact ⟨escapeText_injective htext, hrest⟩

mutual

/-- There is nothing to be joined inside a node. -/
def IsNormal : Node → Prop
  | .text _ => True
  | .element _ children => IsNormalList children

/-- There is nothing to be joined among nodes, nor inside them. -/
def IsNormalList : List Node → Prop
  | [] => True
  | n :: ns => IsNormal n ∧ IsNormalList ns ∧ join n ns = n :: ns

end

/-- A text stays as it is if it is not empty and no text is behind it. -/
theorem join_text_eq_cons_iff {s : String} :
    join (.text s) ns = .text s :: ns ↔ s ≠ "" ∧ ∀ t, ns.head? ≠ some (.text t) := by
  by_cases hs : s = ""
  · rcases ns with _ | ⟨t | ⟨start, children⟩, ns⟩ <;> simp [join, hs]
  · rcases ns with _ | ⟨t | ⟨start, children⟩, ns⟩ <;> simp [join, hs]

theorem markupList_cons_text (s : String) (ns : List Node) (us : List Char) :
    markupList (.text s :: ns) us = escapeText s ++ markupList ns us := by
  rw [markupList, markup]

theorem markupList_cons_element (s : StartTag) (children ns : List Node) (us : List Char) :
    markupList (.element s children :: ns) us =
      s.markup ++ markupList children (s.endMarkup ++ markupList ns us) := by
  rw [markupList, markup]

/-- Behind a text that has been joined with what could be joined, a tag begins or nothing
is left. -/
theorem endsText_markupList (hu : Closes us) (hn : ∀ t, ns.head? ≠ some (.text t)) :
    EndsText (markupList ns us) := by
  rcases ns with _ | ⟨_ | ⟨s, children⟩, ns⟩
  · rcases hu with rfl | ⟨rest, rfl⟩
    · simp [markupList, EndsText]
    · exact endsText_cons _
  · exact absurd rfl (hn _)
  · rw [markupList_cons_element, StartTag.markup_append]
    exact endsText_cons _

theorem markupList_text_ne_element {s : String} {t : StartTag} {children : List Node}
    (h : join (.text s) ns = .text s :: ns) :
    markupList (.text s :: ns) us ≠ markupList (.element t children :: ms) vs := by
  obtain ⟨c, cs, hc, hne⟩ := exists_escapeText_eq_cons (join_text_eq_cons_iff.1 h).1
  rw [markupList_cons_text, markupList_cons_element, StartTag.markup_append, hc]
  exact fun he => hne (List.cons.inj he).1

/-- The end of an element is no beginning of a node. -/
theorem not_closes_markupList (hn : IsNormalList (n :: ns))
    (hs : ∀ s ∈ startTagsList (n :: ns), s.IsNamed) : ¬Closes (markupList (n :: ns) us) := by
  rcases n with s | ⟨s, children⟩
  · obtain ⟨c, cs, hc, hne⟩ := exists_escapeText_eq_cons (join_text_eq_cons_iff.1 hn.2.2).1
    rw [markupList_cons_text, hc]
    rintro (h | ⟨rest, h⟩)
    · cases h
    · exact hne (List.cons.inj h).1
  · obtain ⟨c, cs, hc, hne⟩ := (hs s (by simp [startTagsList, startTags])).name.head
    rw [markupList_cons_element, StartTag.markup_append, hc]
    rintro (h | ⟨rest, h⟩)
    · cases h
    · exact hne (List.cons.inj (List.cons.inj h).2).1

/-- **Nodes that are joined are settled by how a text begins with them**, if what is behind
them is not a node. -/
theorem markupList_inj : (ns ms : List Node) → (us vs : List Char) →
    IsNormalList ns → IsNormalList ms → (∀ s ∈ startTagsList ns, s.IsNamed) →
    (∀ s ∈ startTagsList ms, s.IsNamed) → Closes us → Closes vs →
    markupList ns us = markupList ms vs → ns = ms ∧ us = vs
  | [], [], _, _, _, _, _, _, _, _, h => ⟨rfl, h⟩
  | [], _ :: _, us, vs, _, hm, _, hms, hu, _, h => by
    rw [markupList] at h
    exact absurd (h ▸ hu) (not_closes_markupList hm hms)
  | _ :: _, [], us, vs, hn, _, hns, _, _, hv, h => by
    rw [markupList.eq_1] at h
    exact absurd (h ▸ hv) (not_closes_markupList hn hns)
  | .text s :: ns, .text t :: ms, us, vs, hn, hm, hns, hms, hu, hv, h => by
    rw [markupList_cons_text, markupList_cons_text] at h
    obtain ⟨rfl, htail⟩ := escapeText_append_inj
      (endsText_markupList hu (join_text_eq_cons_iff.1 hn.2.2).2)
      (endsText_markupList hv (join_text_eq_cons_iff.1 hm.2.2).2) h
    obtain ⟨rfl, hrest⟩ := markupList_inj ns ms us vs hn.2.1 hm.2.1 hns hms hu hv htail
    exact ⟨rfl, hrest⟩
  | .text s :: ns, .element t bs :: ms, us, vs, hn, _, _, _, _, _, h => by
    exact absurd h (markupList_text_ne_element hn.2.2)
  | .element s as :: ns, .text t :: ms, us, vs, _, hm, _, _, _, _, h => by
    exact absurd h.symm (markupList_text_ne_element hm.2.2)
  | .element s as :: ns, .element t bs :: ms, us, vs, hn, hm, hns, hms, hu, hv, h => by
    simp only [startTagsList, startTags, List.cons_append, List.forall_mem_cons,
      List.forall_mem_append] at hns hms
    rw [markupList_cons_element, markupList_cons_element] at h
    obtain ⟨rfl, hinside⟩ := StartTag.markup_append_inj hns.1 hms.1 h
    -- inside, the end tag stands for the end
    obtain ⟨rfl, hbehind⟩ := markupList_inj as bs _ _ hn.1 hm.1 hns.2.1 hms.2.1
      (closes_endMarkup _ _) (closes_endMarkup _ _) hinside
    obtain ⟨rfl, hrest⟩ := markupList_inj ns ms us vs hn.2.1 hm.2.1 hns.2.2 hms.2.2 hu hv
      (List.append_cancel_left hbehind)
    exact ⟨rfl, hrest⟩

/-! ### The normal form -/

theorem markupList_join (n : Node) (ns : List Node) (us : List Char) :
    markupList (join n ns) us = markup n (markupList ns us) := by
  rcases n with s | ⟨start, children⟩
  · by_cases hs : s = ""
    · rcases ns with _ | ⟨t | ⟨start, children⟩, ns⟩ <;> simp [join, hs, markup, escapeText]
    · rcases ns with _ | ⟨t | ⟨start, children⟩, ns⟩ <;>
        simp [join, hs, markupList, markup, escapeText]
  · rfl

theorem startTagsList_join (n : Node) (ns : List Node) :
    startTagsList (join n ns) = n.startTags ++ startTagsList ns := by
  rcases n with s | ⟨start, children⟩
  · by_cases hs : s = ""
    · rcases ns with _ | ⟨t | ⟨start, children⟩, ns⟩ <;> simp [join, hs, startTags]
    · rcases ns with _ | ⟨t | ⟨start, children⟩, ns⟩ <;>
        simp [join, hs, startTagsList, startTags]
  · rfl

theorem isNormalList_join (hn : IsNormal n) (hns : IsNormalList ns) :
    IsNormalList (join n ns) := by
  rcases n with s | ⟨start, children⟩
  · by_cases hs : s = ""
    · rcases ns with _ | ⟨t | ⟨start, children⟩, ns⟩ <;> simpa [join, hs] using hns
    · rcases ns with _ | ⟨t | ⟨start, children⟩, ns⟩
      · simp only [join, hs, if_false]
        exact ⟨trivial, trivial, by simp [join, hs]⟩
      · -- what is behind the second text is behind both of them
        have hst : s ++ t ≠ "" := by simp [hs]
        simp only [join, hs, if_false]
        exact ⟨trivial, hns.2.1,
          join_text_eq_cons_iff.2 ⟨hst, (join_text_eq_cons_iff.1 hns.2.2).2⟩⟩
      · simp only [join, hs, if_false]
        exact ⟨trivial, hns, by simp [join, hs]⟩
  · exact ⟨hn, hns, rfl⟩

mutual

theorem isNormal_normal : (n : Node) → IsNormal n.normal
  | .text _ => trivial
  | .element _ children => isNormalList_normalList children

theorem isNormalList_normalList : (ns : List Node) → IsNormalList (normalList ns)
  | [] => trivial
  | n :: ns => isNormalList_join (isNormal_normal n) (isNormalList_normalList ns)

end

mutual

/-- Joining texts leaves no trace in markup. -/
theorem markup_normal : (n : Node) → (us : List Char) → markup n.normal us = markup n us
  | .text _, _ => rfl
  | .element start children, us => by
    rw [normal, markup, markup, markupList_normalList children]

theorem markupList_normalList : (ns : List Node) → (us : List Char) →
    markupList (normalList ns) us = markupList ns us
  | [], _ => rfl
  | n :: ns, us => by
    rw [normalList, markupList_join, markup_normal n, markupList_normalList ns, markupList]

end

mutual

theorem startTags_normal : (n : Node) → n.normal.startTags = n.startTags
  | .text _ => rfl
  | .element start children => by
    rw [normal, startTags, startTags, startTagsList_normalList children]

theorem startTagsList_normalList : (ns : List Node) →
    startTagsList (normalList ns) = startTagsList ns
  | [] => rfl
  | n :: ns => by
    rw [normalList, startTagsList_join, startTags_normal n, startTagsList_normalList ns,
      startTagsList]

end

end Node

/-! ### Documents -/

namespace Document

variable {d d' : Document}

theorem render_normal (d : Document) : d.normal.render = d.render := by
  rw [render, normal, Node.markupList_normalList, render]

theorem IsNamed.normal (h : d.IsNamed) : d.normal.IsNamed := by
  rw [IsNamed, startTags, Document.normal, Node.startTagsList_normalList]
  exact h

/-- **Markup tells everything but how texts are cut into pieces**: of two documents with
proper names, whatever their texts and values are, the markup is the same exactly if they
have the same normal form. -/
theorem render_eq_render_iff (h : d.IsNamed) (h' : d'.IsNamed) :
    d.render = d'.render ↔ d.normal = d'.normal := by
  constructor
  · intro hr
    rw [← render_normal d, ← render_normal d', render, render, String.ofList_inj] at hr
    obtain ⟨hchildren, -⟩ := Node.markupList_inj _ _ [] [] (Node.isNormalList_normalList _)
      (Node.isNormalList_normalList _) h.normal h'.normal (.inl rfl) (.inl rfl) hr
    rw [normal, normal, hchildren]
  · intro hn
    rw [← render_normal d, ← render_normal d', hn]

/-- A value that looks like the end of its tag and the beginning of another one, and a text
in pieces that looks like an entity. -/
def imitation : Document :=
  ⟨[.element ((StartTag.named "p").set "title" "\"><b id=\"") [.text "&", .text "", .text "lt;"]]⟩

/-- The same with the text in one piece. -/
def joined : Document :=
  ⟨[.element ((StartTag.named "p").set "title" "\"><b id=\"") [.text "&lt;"]]⟩

/-- What the value and the text look like. -/
def imitated : Document :=
  ⟨[.element ((StartTag.named "p").set "title" "")
    [.element ((StartTag.named "b").set "id" "") [.text "<"]]]⟩

/-- Where the text is cut cannot be seen; what a value or a text looks like deceives
nobody. -/
theorem render_eq_render_iff_imitation :
    imitation.IsNamed ∧ joined.IsNamed ∧ imitated.IsNamed ∧
      imitation.render = joined.render ∧ imitation.render ≠ imitated.render := by
  have h : imitation.IsNamed := by decide
  have hjoined : joined.IsNamed := by decide
  have himitated : imitated.IsNamed := by decide
  refine ⟨h, hjoined, himitated, (render_eq_render_iff h hjoined).2 (by decide), ?_⟩
  rw [Ne, render_eq_render_iff h himitated]
  decide

end Document

end Relink
