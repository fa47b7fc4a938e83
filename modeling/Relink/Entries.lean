/-!
# Ordered entries

A list of key–value pairs is read here as a map that remembers when each key
first came. Writing to a key that is present changes its value and leaves it
where it stands; writing to a new key appends it. Attribute lists, JSON objects
and the configured tables are all kept this way, since the order of their entries
can be seen: in markup, in the order in which rules are tried, and in which of
several bad entries a message names.

The main statements describe each operation through the two views of a list of
entries, its keys and its look-up: `keys_put` and `get?_put`, `keys_drop` and
`get?_drop`.
-/

namespace Relink

/-- Key–value pairs in the order in which their keys first came. -/
abbrev Entries (α : Type) := List (String × α)

namespace Entries

variable {α : Type}

/-- The keys, in order. -/
def keys (es : Entries α) : List String := es.map Prod.fst

/-- The value of a key, if it is present. -/
def get? : Entries α → String → Option α
  | [], _ => none
  | (k', v) :: es, k => if k' = k then some v else get? es k

/-- Writes a value: in place if the key is present, at the end otherwise. -/
def put : Entries α → String → α → Entries α
  | [], k, v => [(k, v)]
  | (k', v') :: es, k, v => if k' = k then (k', v) :: es else (k', v') :: put es k v

/-- Removes a key. -/
def drop (es : Entries α) (k : String) : Entries α := es.filter (fun e => e.1 != k)

/-- Writes several pairs, one after the other. -/
def putAll (es : Entries α) (ps : List (String × α)) : Entries α :=
  ps.foldl (fun es p => put es p.1 p.2) es

/-- Two lists of entries agree as maps, whatever their order: they have as many
keys, and each entry of the one is an entry of the other. -/
def agree [BEq α] (es fs : Entries α) : Bool :=
  es.length == fs.length && es.all (fun e => get? fs e.1 == some e.2)

/-! ### Keys -/

@[simp] theorem keys_nil : keys ([] : Entries α) = [] := rfl

@[simp] theorem keys_cons (e : String × α) (es : Entries α) : keys (e :: es) = e.1 :: keys es := rfl

@[simp] theorem keys_append (es fs : Entries α) : keys (es ++ fs) = keys es ++ keys fs :=
  List.map_append

theorem keys_put (es : Entries α) (k : String) (v : α) :
    keys (put es k v) = if k ∈ keys es then keys es else keys es ++ [k] := by
  induction es with
  | nil => simp [put]
  | cons e es ih =>
    by_cases h : e.1 = k
    · simp [put, h]
    · have h' : ¬ k = e.1 := fun hk => h hk.symm
      by_cases hm : k ∈ keys es <;> simp [put, h, h', ih, hm]

theorem keys_drop (es : Entries α) (k : String) :
    keys (drop es k) = (keys es).filter (· != k) := by
  induction es with
  | nil => rfl
  | cons e es ih =>
    simp only [drop] at ih ⊢
    by_cases h : e.1 = k <;> simp [h, ih]

theorem nodup_keys_put {es : Entries α} (h : (keys es).Nodup) (k : String) (v : α) :
    (keys (put es k v)).Nodup := by
  rw [keys_put]
  split
  · exact h
  · next hk =>
    rw [List.nodup_append]
    refine ⟨h, by simp, ?_⟩
    intro a ha b hb
    rintro rfl
    simp only [List.mem_singleton] at hb
    exact hk (hb ▸ ha)

theorem nodup_keys_drop {es : Entries α} (h : (keys es).Nodup) (k : String) :
    (keys (drop es k)).Nodup := by
  rw [keys_drop]
  exact h.filter _

/-! ### Look-up -/

@[simp] theorem get?_nil (k : String) : get? ([] : Entries α) k = none := rfl

theorem get?_cons (e : String × α) (es : Entries α) (k : String) :
    get? (e :: es) k = if e.1 = k then some e.2 else get? es k := rfl

theorem get?_put (es : Entries α) (k : String) (v : α) (j : String) :
    get? (put es k v) j = if k = j then some v else get? es j := by
  induction es with
  | nil => simp [put, get?_cons]
  | cons e es ih =>
    by_cases h : e.1 = k
    · subst h
      by_cases hj : e.1 = j <;> simp [put, get?_cons, hj]
    · by_cases hj : e.1 = j
      · subst hj
        have hk : ¬ k = e.1 := fun hk => h hk.symm
        simp [put, get?_cons, h, hk]
      · simp [put, get?_cons, h, hj, ih]

theorem get?_drop (es : Entries α) (k j : String) :
    get? (drop es k) j = if k = j then none else get? es j := by
  induction es with
  | nil => simp [drop]
  | cons e es ih =>
    simp only [drop] at ih ⊢
    by_cases h : e.1 = k
    · subst h
      by_cases hj : e.1 = j
      · subst hj
        simpa using ih
      · simp [get?_cons, hj, ih]
    · by_cases hj : e.1 = j
      · subst hj
        have hk : ¬ k = e.1 := fun hk => h hk.symm
        simp [get?_cons, h, hk]
      · simp [get?_cons, h, hj, ih]

theorem get?_eq_none_iff {es : Entries α} {k : String} : get? es k = none ↔ k ∉ keys es := by
  induction es with
  | nil => simp
  | cons e es ih =>
    by_cases h : e.1 = k
    · simp [get?_cons, h]
    · have h' : ¬ k = e.1 := fun hk => h hk.symm
      simp [get?_cons, h, h', ih]

theorem get?_ne_none_iff {es : Entries α} {k : String} : get? es k ≠ none ↔ k ∈ keys es := by
  rw [ne_eq, get?_eq_none_iff, Classical.not_not]

theorem mem_of_get? {es : Entries α} {k : String} {v : α} (h : get? es k = some v) :
    (k, v) ∈ es := by
  induction es with
  | nil => cases h
  | cons e es ih =>
    rw [get?_cons] at h
    split at h
    · next he =>
      cases h
      subst he
      exact List.mem_cons_self
    · exact List.mem_cons_of_mem _ (ih h)

theorem get?_of_mem {es : Entries α} (hn : (keys es).Nodup) {k : String} {v : α}
    (h : (k, v) ∈ es) : get? es k = some v := by
  induction es with
  | nil => cases h
  | cons e es ih =>
    rw [keys_cons, List.nodup_cons] at hn
    rcases List.mem_cons.1 h with rfl | h
    · simp [get?_cons]
    · have hk : ¬ e.1 = k := by
        intro he
        exact hn.1 (he ▸ List.mem_map_of_mem h)
      simp [get?_cons, hk, ih hn.2 h]

/-! ### Where a key stands -/

theorem exists_append_of_get? {es : Entries α} {k : String} {v : α} (h : get? es k = some v) :
    ∃ before after, es = before ++ (k, v) :: after ∧ k ∉ keys before := by
  induction es with
  | nil => cases h
  | cons e es ih =>
    rw [get?_cons] at h
    split at h
    · next he =>
      cases h
      subst he
      exact ⟨[], es, rfl, by simp⟩
    · next he =>
      obtain ⟨before, after, rfl, hk⟩ := ih h
      have hne : ¬ k = e.1 := fun hk => he hk.symm
      exact ⟨e :: before, after, rfl, by simp [hk, hne]⟩

theorem put_of_notMem {es : Entries α} {k : String} (h : k ∉ keys es) (v : α) :
    put es k v = es ++ [(k, v)] := by
  induction es with
  | nil => rfl
  | cons e es ih =>
    rw [keys_cons, List.mem_cons, not_or] at h
    have hne : ¬ e.1 = k := fun he => h.1 he.symm
    simp [put, hne, ih h.2]

theorem putAll_of_nodup {es : Entries α} {ps : List (String × α)}
    (h : (keys (es ++ ps)).Nodup) : putAll es ps = es ++ ps := by
  induction ps generalizing es with
  | nil => exact (List.append_nil es).symm
  | cons p ps ih =>
    have hp : p.1 ∉ keys es := by
      intro hp
      rw [keys_append] at h
      exact (List.nodup_append.1 h).2.2 _ hp _ List.mem_cons_self rfl
    have happend : es ++ [p] ++ ps = es ++ p :: ps := by simp
    have hput : putAll es (p :: ps) = putAll (es ++ [p]) ps := by
      rw [← put_of_notMem hp]
      rfl
    rw [hput, ih (happend ▸ h), happend]

theorem put_append {before after : Entries α} {k : String} (h : k ∉ keys before) (v w : α) :
    put (before ++ (k, v) :: after) k w = before ++ (k, w) :: after := by
  induction before with
  | nil => simp [put]
  | cons e es ih =>
    rw [keys_cons, List.mem_cons, not_or] at h
    have hne : ¬ e.1 = k := fun he => h.1 he.symm
    simp [put, hne, ih h.2]

theorem drop_eq_self {es : Entries α} {k : String} (h : k ∉ keys es) : drop es k = es := by
  refine List.filter_eq_self.2 fun e he => ?_
  simp only [bne_iff_ne, ne_eq]
  rintro rfl
  exact h (List.mem_map_of_mem he)

theorem drop_append {before after : Entries α} {k : String} (h : k ∉ keys before)
    (h' : k ∉ keys after) (v : α) : drop (before ++ (k, v) :: after) k = before ++ after := by
  have hb := drop_eq_self h
  have ha := drop_eq_self h'
  simp only [drop] at hb ha ⊢
  simp [List.filter_append, hb, ha]

end Entries

/-- **A table**: entries none of whose keys occurs twice. -/
structure Table (α : Type) where
  /-- The entries, in the order in which their keys first came. -/
  entries : Entries α
  /-- No key occurs twice. -/
  nodup : (Entries.keys entries).Nodup
deriving DecidableEq

namespace Table

variable {α : Type}

/-- The table without entries. -/
def empty : Table α := ⟨[], List.nodup_nil⟩

instance : EmptyCollection (Table α) := ⟨empty⟩

instance : Inhabited (Table α) := ⟨empty⟩

/-- The keys, in order. -/
def keys (t : Table α) : List String := Entries.keys t.entries

/-- The value of a key, if it is present. -/
def get? (t : Table α) (k : String) : Option α := Entries.get? t.entries k

/-- Writes a value: in place if the key is present, at the end otherwise. -/
def put (t : Table α) (k : String) (v : α) : Table α :=
  ⟨Entries.put t.entries k v, Entries.nodup_keys_put t.nodup k v⟩

/-- Removes a key. -/
def drop (t : Table α) (k : String) : Table α :=
  ⟨Entries.drop t.entries k, Entries.nodup_keys_drop t.nodup k⟩

/-- The table of a list of pairs, written one after the other. -/
def ofList (ps : List (String × α)) : Table α := ps.foldl (fun t p => t.put p.1 p.2) empty

/-- The number of entries. -/
def size (t : Table α) : Nat := t.entries.length

/-- Two tables agree as maps, whatever the order of their entries. -/
def agree [BEq α] (t u : Table α) : Bool := Entries.agree t.entries u.entries

/-- A table is settled by its entries. -/
theorem eq_of_entries {t u : Table α} (h : t.entries = u.entries) : t = u := by
  cases t
  cases u
  cases h
  rfl

@[simp] theorem entries_empty : (empty : Table α).entries = [] := rfl

@[simp] theorem entries_put (t : Table α) (k : String) (v : α) :
    (t.put k v).entries = Entries.put t.entries k v := rfl

@[simp] theorem entries_drop (t : Table α) (k : String) :
    (t.drop k).entries = Entries.drop t.entries k := rfl

theorem entries_ofList (ps : List (String × α)) :
    (ofList ps).entries = Entries.putAll [] ps := by
  have h : ∀ (ps : List (String × α)) (t : Table α),
      (ps.foldl (fun t p => t.put p.1 p.2) t).entries = Entries.putAll t.entries ps := by
    intro ps
    induction ps with
    | nil => intro t; rfl
    | cons p ps ih => intro t; exact ih (t.put p.1 p.2)
  exact h ps empty

/-- A table is the table of its entries. -/
theorem ofList_entries (t : Table α) : ofList t.entries = t := by
  have hn : (Entries.keys ([] ++ t.entries)).Nodup := t.nodup
  refine eq_of_entries ?_
  rw [entries_ofList, Entries.putAll_of_nodup hn, List.nil_append]

theorem get?_ne_none_iff {t : Table α} {k : String} : t.get? k ≠ none ↔ k ∈ t.keys :=
  Entries.get?_ne_none_iff

theorem get?_put (t : Table α) (k : String) (v : α) (j : String) :
    (t.put k v).get? j = if k = j then some v else t.get? j :=
  Entries.get?_put t.entries k v j

theorem get?_drop (t : Table α) (k j : String) :
    (t.drop k).get? j = if k = j then none else t.get? j :=
  Entries.get?_drop t.entries k j

end Table

end Relink
