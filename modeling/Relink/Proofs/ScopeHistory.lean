import Mathlib.Data.Finset.Card
import Relink.Proofs.Json.Printing
import Relink.Proofs.PlainManifest

/-!
# Scopes by their history

A scope may come about in several ways: tag by tag, from a map whose tags have no order of
their own, or from a document. In each of them tags with names are put in, and some tags more
than once (`Relink.Scope.Made`). What the scope looks at can be told from this history alone
(`Relink.Scope.made_tells`): a tag is inspected if it was ever put in, for the names that it
was given last, each of them once, where it first came among them (`Relink.IsFirsts`).

So two scopes are told apart by what they look at and by nothing else, and in which order two
different tags were put in cannot be seen.
-/

namespace Relink

/-! ### Each name once -/

/-- **The names that are kept of a list**: all of them, in the order in which each first
came. -/
structure IsFirsts (names kept : List String) : Prop where
  /-- No name is lost and none is added. -/
  mem_iff : ∀ n, n ∈ kept ↔ n ∈ names
  /-- A name first came before all those that stand behind it. -/
  order : kept.Pairwise fun m n => names.idxOf m < names.idxOf n

/-- No name is kept twice, since it would have to come before itself. -/
theorem IsFirsts.nodup {names kept : List String} (h : IsFirsts names kept) : kept.Nodup := by
  refine h.order.imp fun {m n} hlt he => ?_
  rw [he] at hlt
  exact Nat.lt_irrefl _ hlt

theorem isFirsts_distinct (names : List String) : IsFirsts names (distinct names) where
  mem_iff _ := mem_distinct
  order := by
    induction names with
    | nil => exact .nil
    | cons a as ih =>
      have hne : ∀ n ∈ (distinct as).filter (· != a), a ≠ n := by
        rintro n hn rfl
        simpa using (List.mem_filter.1 hn).2
      -- behind the head every other name is one place further on
      refine List.pairwise_cons.2 ⟨fun n hn => ?_, (ih.filter _).imp_of_mem ?_⟩
      · rw [List.idxOf_cons_self, List.idxOf_cons_ne _ (hne n hn)]
        exact Nat.succ_pos _
      · intro m n hm hn hmn
        rw [List.idxOf_cons_ne _ (hne m hm), List.idxOf_cons_ne _ (hne n hn)]
        exact Nat.succ_lt_succ hmn

/-! ### Look-up in any order -/

namespace Entries

variable {α : Type} {es fs : Entries α} {k : String} {v : α}

/-- The order of entries makes no difference to what is found. -/
theorem get?_of_perm (h : es.Perm fs) (hn : (keys es).Nodup) (k : String) :
    get? es k = get? fs k := by
  have hn' : (keys fs).Nodup := (h.map Prod.fst).nodup_iff.1 hn
  refine Option.ext fun v => ⟨fun hv => ?_, fun hv => ?_⟩
  · exact get?_of_mem hn' (h.mem_iff.1 (mem_of_get? hv))
  · exact get?_of_mem hn (h.mem_iff.2 (mem_of_get? hv))

theorem mem_keys_reverse {ps : List (String × α)} : k ∈ keys ps.reverse ↔ k ∈ keys ps := by
  rw [keys, List.map_reverse, List.mem_reverse, keys]

/-- From behind, it is the last value of a key that is found. -/
theorem get?_reverse_of_notMem {before after : List (String × α)} (h : k ∉ keys after) :
    get? (before ++ (k, v) :: after).reverse k = some v := by
  rw [← mem_keys_reverse] at h
  rw [List.reverse_append, List.reverse_cons, List.append_assoc]
  -- what comes first from behind has other keys
  generalize after.reverse = rest at h
  induction rest with
  | nil => rw [List.nil_append, List.singleton_append, get?_cons, if_pos rfl]
  | cons p ps ih =>
    rw [keys_cons, List.mem_cons, not_or] at h
    rw [List.cons_append, get?_cons, if_neg (Ne.symm h.1), ih h.2]

end Entries

namespace Table

variable {α : Type}

/-- The size of a table is the number of keys that have a value. -/
theorem size_eq_card {t : Table α} {ks : Finset String} (h : ∀ k, k ∈ ks ↔ t.get? k ≠ none) :
    t.size = ks.card := by
  have hks : ks = t.keys.toFinset := Finset.ext fun k => by
    rw [h, List.mem_toFinset, get?_ne_none_iff]
  rw [hks, keys, List.toFinset_card_of_nodup t.nodup, Entries.keys, List.length_map, size]

/-- **Tables agree exactly if all keys have the same values in them.** -/
theorem agree_iff [BEq α] [LawfulBEq α] {t u : Table α} :
    t.agree u = true ↔ ∀ k, t.get? k = u.get? k := by
  constructor
  · intro h k
    exact Entries.get?_of_perm (Entries.perm_of_agree t.nodup h) t.nodup k
  · intro h
    have hmem (k : String) : k ∈ t.keys ↔ k ∈ u.keys := by
      rw [← get?_ne_none_iff, ← get?_ne_none_iff, h]
    have hkeys : t.keys.Perm u.keys := (List.perm_ext_iff_of_nodup t.nodup u.nodup).2 hmem
    have hlength : t.entries.length = u.entries.length := by
      simpa only [keys, Entries.keys, List.length_map] using hkeys.length_eq
    have hall : ∀ e ∈ t.entries, Entries.get? u.entries e.1 = some e.2 := fun e he =>
      (h e.1).symm.trans (Entries.get?_of_mem t.nodup he)
    simp only [agree, Entries.agree, Bool.and_eq_true, beq_iff_eq, List.all_eq_true]
    exact ⟨hlength, hall⟩

end Table

/-! ### Histories -/

namespace Json.Raw

/-- Tags with names, as an object of lists of texts. -/
def ofTags (ps : List (String × List String)) : Raw :=
  .ofMembers (ps.map fun p => (p.1, .ofNames p.2))

end Json.Raw

namespace Scope

open Json

variable {ps : List (String × List String)} {s t : Scope} {content : Bytes}

/-- An object of lists of texts is read as the scope of its members. -/
theorem parse_of_document (h : (Raw.ofTags ps).Document content) :
    parse content = .ok (ofList ps) :=
  (readAll_eq_ok_iff_document read_eq_ok_iff).2 ⟨_, h, ps, rfl, rfl⟩

/-- **How a scope comes about**, and the tags with their names that are put into it on the
way, the latest at the end. -/
inductive Made : List (String × List String) → Scope → Prop
  /-- Nothing is put in. -/
  | empty : Made [] empty
  /-- It is the standard. -/
  | standard : Made [("script", ["src"])] standard
  /-- One more tag is put in. -/
  | put {ps : List (String × List String)} {s : Scope} (h : Made ps s) (tag : String)
    (names : List String) : Made (ps ++ [(tag, names)]) (s.put tag names)
  /-- A map, in which each tag has its last names, is put in tag by tag, in any order. -/
  | collected {ps order : List (String × List String)}
    (perm : order.Perm (Table.ofList ps).entries) : Made ps (ofList order)
  /-- A document is read. -/
  | read {ps : List (String × List String)} {content : Bytes} {s : Scope}
    (document : (Raw.ofTags ps).Document content) (parse : parse content = .ok s) : Made ps s

/-- **A history tells what a scope looks at.** -/
structure Tells (ps : List (String × List String)) (s : Scope) : Prop where
  /-- A tag that was never put in is not inspected. -/
  missing : ∀ tag, tag ∉ Entries.keys ps → s.attributes? tag = none
  /-- A tag is inspected for the names that it was given last, each of them once. -/
  last : ∀ before tag names after, ps = before ++ (tag, names) :: after →
    tag ∉ Entries.keys after → ∃ kept, s.attributes? tag = some kept ∧ IsFirsts names kept
  /-- No tag is inspected for a name twice. -/
  nodup : ∀ tag kept, s.attributes? tag = some kept → kept.Nodup
  /-- The size is the number of different tags. -/
  size : s.size = (Entries.keys ps).toFinset.card

theorem attributes?_ofList (ps : List (String × List String)) (tag : String) :
    (ofList ps).attributes? tag = (Entries.get? ps.reverse tag).map distinct := by
  rw [attributes?, Table.get?, table_ofList, Table.entries_ofList, Entries.get?_putAll_nil,
    ← List.map_reverse, Entries.get?_map]

/-- **What a scope looks at is what was put in last**, however it came about. -/
theorem Made.attributes?_eq (h : Made ps s) (tag : String) :
    s.attributes? tag = (Entries.get? ps.reverse tag).map distinct := by
  induction h with
  | empty => rfl
  | standard => exact attributes?_ofList [("script", ["src"])] tag
  | put h t names ih =>
    rw [attributes?_put, List.reverse_concat, Entries.get?_cons, ih]
    by_cases ht : t = tag <;> simp [ht]
  | @collected ps order perm =>
    -- the map has every tag once, so it is the same from behind and in any order
    have hperm : order.reverse.Perm (Table.ofList ps).entries := (List.reverse_perm _).trans perm
    have hn : (Entries.keys order.reverse).Nodup :=
      (hperm.map Prod.fst).nodup_iff.2 (Table.ofList ps).nodup
    rw [attributes?_ofList, Entries.get?_of_perm hperm hn, Table.entries_ofList,
      Entries.get?_putAll_nil]
  | read document parse =>
    rw [parse_of_document document] at parse
    cases parse
    exact attributes?_ofList _ tag

theorem made_ofList (ps : List (String × List String)) : Made ps (ofList ps) := by
  induction ps using List.reverseRecOn with
  | nil => exact .empty
  | append_singleton ps p ih =>
    have hput : ofList (ps ++ [p]) = (ofList ps).put p.1 p.2 := List.foldl_concat ..
    rw [hput]
    exact ih.put p.1 p.2

theorem Made.tells (h : Made ps s) : s.Tells ps where
  missing tag htag := by
    rw [h.attributes?_eq, Entries.get?_eq_none_iff.2 (mt Entries.mem_keys_reverse.1 htag),
      Option.map_none]
  last before tag names after hps hafter := by
    refine ⟨distinct names, ?_, isFirsts_distinct names⟩
    rw [h.attributes?_eq, hps, Entries.get?_reverse_of_notMem hafter, Option.map_some]
  nodup tag kept hkept := by
    rw [h.attributes?_eq] at hkept
    obtain ⟨names, -, rfl⟩ := Option.map_eq_some_iff.1 hkept
    exact (isFirsts_distinct names).nodup
  size := by
    refine Table.size_eq_card fun tag => ?_
    have hnone : s.table.get? tag = none ↔ tag ∉ Entries.keys ps := by
      rw [← Entries.mem_keys_reverse, ← Entries.get?_eq_none_iff]
      exact (h.attributes?_eq tag).congr_left.trans Option.map_eq_none_iff
    rw [List.mem_toFinset, ne_eq, hnone, not_not]

/-- Scopes agree exactly if they look at the same. -/
theorem agree_iff : s.agree t = true ↔ ∀ tag, s.attributes? tag = t.attributes? tag :=
  Table.agree_iff

theorem Made.agree (h : Made ps s) (h' : Made ps t) : s.agree t = true :=
  agree_iff.2 fun tag => (h.attributes?_eq tag).trans (h'.attributes?_eq tag).symm

/-- In which order two different tags are put in cannot be seen. -/
theorem put_put_agree {tag tag' : String} (h : tag ≠ tag') (s : Scope)
    (names names' : List String) :
    ((s.put tag names).put tag' names').agree ((s.put tag' names').put tag names) = true := by
  refine agree_iff.2 fun k => ?_
  simp only [attributes?_put]
  by_cases hk : tag = k
  · have hk' : tag' ≠ k := fun hk' => h (hk.trans hk'.symm)
    rw [if_neg hk', if_pos hk, if_pos hk]
  · rw [if_neg hk, if_neg hk]

/-- **What a scope looks at can be told from its history.**

* A scope may have any history: that of the tags that are put into the empty one, and that of
  the members of a document that is an object of lists of texts. Each scope has one.
* The history tells what the scope looks at, and how many tags there are.
* Scopes agree exactly if they look at the same, and so those with the same history do.
* Two different tags may be put in in either order. -/
theorem made_tells :
    (∀ ps, Made ps (ofList ps)) ∧
    (∀ ps content, (Raw.ofTags ps).Document content → ∃ s, parse content = .ok s ∧ Made ps s) ∧
    (∀ s, ∃ ps, Made ps s) ∧
    (∀ ps s, Made ps s → s.Tells ps) ∧
    (∀ s t : Scope, s.agree t = true ↔ ∀ tag, s.attributes? tag = t.attributes? tag) ∧
    (∀ ps s t, Made ps s → Made ps t → s.agree t = true) ∧
    ∀ (s : Scope) (tag tag' : String) (names names' : List String), tag ≠ tag' →
      ((s.put tag names).put tag' names').agree ((s.put tag' names').put tag names) = true := by
  refine ⟨made_ofList, fun ps content h => ?_, fun s => ?_, fun ps s h => h.tells,
    fun s t => agree_iff, fun ps s t h h' => h.agree h', ?_⟩
  · exact ⟨ofList ps, parse_of_document h, made_ofList ps⟩
  · refine ⟨s.table.entries, ?_⟩
    have hmade := made_ofList s.table.entries
    rwa [ofList_entries] at hmade
  · intro s tag tag' names names' hne
    exact put_put_agree hne s names names'

/-- A tag that is given names a second time, some of them twice. -/
def regiven : List (String × List String) :=
  [("a", ["x", "y", "x"]), ("b", ["z"]), ("a", ["y", "y", "x"])]

/-- The same as a document. -/
def regivenText : String :=
  "\x7b\"a\":[\"x\",\"y\",\"x\"],\"b\":[\"z\"],\"a\":[\"y\",\"y\",\"x\"]\x7d"

/-- The document says what was given last, and so does a map of it in another order. -/
theorem made_tells_regiven :
    ∃ s, parse (Text.encode regivenText) = .ok s ∧ Made regiven s ∧
      (∃ kept, s.attributes? "a" = some kept ∧ IsFirsts ["y", "y", "x"] kept) ∧
      s.attributes? "c" = none ∧ s.size = 2 ∧
      s.agree (ofList [("b", ["z"]), ("a", ["y", "y", "x"])]) = true ∧
      ((s.put "b" []).put "c" ["w"]).agree ((s.put "c" ["w"]).put "b" []) = true := by
  obtain ⟨-, hread, -, htells, -, hagree, hput⟩ := made_tells
  have hdocument : (Raw.ofTags regiven).Document (Text.encode regivenText) := by
    have hprints : Prints (.object (regiven.map fun p => (p.1, .array (p.2.map .string))))
        (.ofTags regiven) :=
      prints_object fun _ _ => prints_array fun n _ => prints_string n
    have hbytes : (Json.object (regiven.map fun p => (p.1, .array (p.2.map .string)))).toBytes =
        Text.encode regivenText := by decide
    exact hbytes ▸ hprints.document.1
  obtain ⟨s, hs, hmade⟩ := hread regiven _ hdocument
  have hs' := htells regiven s hmade
  have hmap : Made regiven (ofList [("b", ["z"]), ("a", ["y", "y", "x"])]) :=
    .collected (by decide)
  exact ⟨s, hs, hmade, hs'.last (regiven.take 2) "a" ["y", "y", "x"] [] rfl (by decide),
    hs'.missing "c" (by decide), hs'.size.trans (by decide), hagree _ _ _ hmade hmap,
    hput s "b" "c" [] ["w"] (by decide)⟩

end Scope

end Relink
