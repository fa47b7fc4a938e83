import Relink.Entries
import Relink.Text.Blank

/-!
# Scopes

Which attributes of which elements are looked at: for each tag that is inspected,
a list of attribute names. No name stands twice in a list, so that one pass over
an element never handles an attribute a second time, with the value it has just
been given.

A scope may hold any names at all; whether they make sense is asked separately
(`Scope.flaw?`), for a scope that came from a configuration.
-/

namespace Relink

/-- The elements of a list without repetitions, in the order in which each first
comes. -/
def distinct : List String → List String
  | [] => []
  | a :: as => a :: (distinct as).filter (· != a)

theorem mem_distinct {as : List String} {b : String} : b ∈ distinct as ↔ b ∈ as := by
  induction as with
  | nil => simp [distinct]
  | cons a as ih =>
    by_cases h : b = a <;> simp [distinct, h, ih]

theorem nodup_distinct (as : List String) : (distinct as).Nodup := by
  induction as with
  | nil => exact List.nodup_nil
  | cons a as ih =>
    rw [distinct, List.nodup_cons]
    exact ⟨by simp, ih.filter _⟩

theorem distinct_of_nodup {as : List String} (h : as.Nodup) : distinct as = as := by
  induction as with
  | nil => rfl
  | cons a as ih =>
    rw [List.nodup_cons] at h
    rw [distinct, ih h.2, List.filter_eq_self.2]
    intro b hb
    simp only [bne_iff_ne, ne_eq]
    rintro rfl
    exact h.1 hb

theorem distinct_concat (as : List String) (b : String) :
    distinct (as ++ [b]) = if b ∈ as then distinct as else distinct as ++ [b] := by
  induction as with
  | nil => rfl
  | cons a as ih =>
    rw [List.cons_append, distinct, ih, distinct]
    by_cases hb : b ∈ as
    · simp [hb]
    · rw [if_neg hb, List.filter_append]
      by_cases ha : b = a
      · simp [ha]
      · simp [hb, ha]

/-- The attributes to look at, by tag. -/
structure Scope where
  /-- The attribute names of each tag. -/
  table : Table (List String)
  /-- No name stands twice under one tag. -/
  nodup : ∀ e ∈ table.entries, e.2.Nodup
deriving DecidableEq

namespace Scope

/-- The scope that looks at nothing. -/
def empty : Scope := ⟨Table.empty, by simp⟩

/-- The attribute names of a tag, if the tag is inspected. -/
def attributes? (s : Scope) (tag : String) : Option (List String) := s.table.get? tag

/-- Inspects a tag for the given names, in place of any it was inspected for
before. Repeated names are dropped. -/
def put (s : Scope) (tag : String) (names : List String) : Scope where
  table := s.table.put tag (distinct names)
  nodup := by
    have h : ∀ (es : Entries (List String)), (∀ e ∈ es, e.2.Nodup) →
        ∀ e ∈ Entries.put es tag (distinct names), e.2.Nodup := by
      intro es
      induction es with
      | nil =>
        intro _ e he
        simp only [Entries.put, List.mem_singleton] at he
        rw [he]
        exact nodup_distinct names
      | cons f es ih =>
        intro hes e he
        simp only [Entries.put] at he
        split at he
        · rcases List.mem_cons.1 he with rfl | he
          · exact nodup_distinct names
          · exact hes e (List.mem_cons_of_mem _ he)
        · rcases List.mem_cons.1 he with rfl | he
          · exact hes _ List.mem_cons_self
          · exact ih (fun e he => hes e (List.mem_cons_of_mem _ he)) e he
    exact h s.table.entries s.nodup

/-- The scope of a list of tags with names, put in one after the other. -/
def ofList (ps : List (String × List String)) : Scope :=
  ps.foldl (fun s p => s.put p.1 p.2) empty

/-- What is inspected unless something else is configured: the sources of scripts. -/
def standard : Scope := ofList [("script", ["src"])]

/-- The number of tags. -/
def size (s : Scope) : Nat := s.table.size

/-- Two scopes inspect the same, in whatever order their tags were put in. -/
def agree (s t : Scope) : Bool := s.table.agree t.table

theorem eq_of_table {s t : Scope} (h : s.table = t.table) : s = t := by
  cases s
  cases t
  cases h
  rfl

theorem table_ofList (ps : List (String × List String)) :
    (ofList ps).table = Table.ofList (ps.map fun p => (p.1, distinct p.2)) := by
  have h : ∀ (ps : List (String × List String)) (s : Scope),
      (ps.foldl (fun s p => s.put p.1 p.2) s).table =
        (ps.map fun p => (p.1, distinct p.2)).foldl (fun t p => t.put p.1 p.2) s.table := by
    intro ps
    induction ps with
    | nil => intro s; rfl
    | cons p ps ih => intro s; exact ih (s.put p.1 p.2)
  exact h ps empty

/-- A scope is the scope of its entries. -/
theorem ofList_entries (s : Scope) : ofList s.table.entries = s := by
  refine eq_of_table ?_
  have hmap : (s.table.entries.map fun p => (p.1, distinct p.2)) = s.table.entries := by
    rw [List.map_congr_left (g := id) fun p hp => by rw [distinct_of_nodup (s.nodup p hp), id],
      List.map_id]
  rw [table_ofList, hmap, Table.ofList_entries]

theorem attributes?_put (s : Scope) (tag : String) (names : List String) (t : String) :
    (s.put tag names).attributes? t = if tag = t then some (distinct names) else s.attributes? t :=
  Table.get?_put s.table tag (distinct names) t

/-! ### Flaws -/

/-- What is wrong with a scope. -/
inductive Flaw where
  /-- A tag is blank. -/
  | blankTag
  /-- An attribute name of the tag is blank. -/
  | blankAttribute (tag : String)
deriving DecidableEq

/-- A flaw in words. -/
def Flaw.reason : Flaw → String
  | .blankTag => "tag name must not be empty"
  | .blankAttribute tag => "attribute name for <" ++ tag ++ "> must not be empty"

/-- What is wrong with one entry: a blank tag goes before blank names. -/
def entryFlaw? (e : String × List String) : Option Flaw :=
  if Text.isBlankName e.1 then some .blankTag
  else if e.2.any Text.isBlankName then some (.blankAttribute e.1)
  else none

/-- The flaw of the first entry that has one. -/
def flaw? (s : Scope) : Option Flaw := s.table.entries.findSome? entryFlaw?

end Scope

end Relink
