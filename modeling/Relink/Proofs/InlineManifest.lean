import Relink.Manifest.Inline
import Relink.Proofs.ManifestFile

/-!
# Manifests inside documents and in files

The same object may be read as a manifest in two ways. In a file it is read as a whole,
its members are settled, those of the older layout are unwrapped, and what is left is
taken for replacements. Inside a document each value is taken for a replacement as soon
as it has been read. The two come to the same manifest wherever the second succeeds
(`Manifest.parse_of_parseInline`), and they part in two places only: a value of the
older layout is a replacement in a file alone, and a value that is none is forgiven in
a file if its path is given another one later on.

Both ways of reading go through the same members, overridden ones included, since these
are settled by the bytes (`Json.settleMembers_eq_of_objectDocument`). So what the one
has put into its manifest, member by member, can be set beside the members that count
for the other: to put a path again is to write over its entry, and that is how members
are settled.
-/

namespace Relink

/-! ### Settling with other values -/

namespace Entries

variable {α β : Type}

theorem keys_map (f : α → β) (ps : List (String × α)) :
    keys (ps.map fun p => (p.1, f p.2)) = keys ps := by
  simp [keys]

theorem get?_map (f : α → β) (ps : List (String × α)) (k : String) :
    get? (ps.map fun p => (p.1, f p.2)) k = (get? ps k).map f := by
  induction ps with
  | nil => rfl
  | cons p ps ih =>
    rw [List.map_cons, get?_cons, get?_cons, ih]
    by_cases hk : p.1 = k <;> simp [hk]

/-- The value of a key does not matter to where it stands. -/
theorem settle_map (f : α → β) (ps : List (String × α)) :
    settle (ps.map fun p => (p.1, f p.2)) = (settle ps).map fun p => (p.1, f p.2) := by
  rw [settle, settle, keys_map, List.map_filterMap]
  refine List.filterMap_congr fun k _ => ?_
  rw [← List.map_reverse, get?_map, Option.map_map, Option.map_map]
  rfl

theorem mem_settle_iff {ps : List (String × α)} {p : String × α} :
    p ∈ settle ps ↔ get? ps.reverse p.1 = some p.2 := by
  have hn : (keys (settle ps)).Nodup := keys_settle ps ▸ nodup_distinct _
  rw [← get?_settle]
  exact ⟨get?_of_mem hn, mem_of_get?⟩

theorem mem_of_mem_settle {ps : List (String × α)} {p : String × α} (h : p ∈ settle ps) :
    p ∈ ps :=
  List.mem_reverse.1 (mem_of_get? (mem_settle_iff.1 h))

/-- Putting pairs into a table settles them. -/
theorem entries_foldl_put (f : α → β) (ps : List (String × α)) :
    (ps.foldl (fun (t : Table β) p => t.put p.1 (f p.2)) Table.empty).entries =
      (settle ps).map fun p => (p.1, f p.2) := by
  rw [← settle_map, ← putAll_nil_eq_settle, ← Table.entries_ofList, Table.ofList,
    List.foldl_map]

end Entries

/-! ### The members of a document -/

namespace Json

section Series

variable {α : Type} {close : UInt8} {item : Bytes → α → Bytes → Prop} {accepts : α → Prop}
  {first : Bool} {bs rest : Bytes} {as : List α}

/-- Items that are all of one kind are items, all of that kind. -/
theorem series_and_iff :
    Series close (fun bs a rest => item bs a rest ∧ accepts a) first bs as rest ↔
      Series close item first bs as rest ∧ ∀ a ∈ as, accepts a := by
  constructor
  · intro h
    induction h with
    | close h => exact ⟨.close h, by simp⟩
    | item opens h _ ih => exact ⟨.item opens h.1 ih.1, by simpa using ⟨h.2, ih.2⟩⟩
  · rintro ⟨h, haccepts⟩
    induction h with
    | close h => exact .close h
    | item opens h _ ih =>
      obtain ⟨ha, has⟩ := List.forall_mem_cons.1 haccepts
      exact .item opens ⟨h, ha⟩ (ih has)

theorem objectOf_and_iff :
    ObjectOf (fun bs a rest => item bs a rest ∧ accepts a) as bs ↔
      ObjectOf item as bs ∧ ∀ a ∈ as, accepts a := by
  simp only [ObjectOf, series_and_iff]
  constructor
  · rintro ⟨inner, rest, hstart, ⟨has, haccepts⟩, hend⟩
    exact ⟨⟨inner, rest, hstart, has, hend⟩, haccepts⟩
  · rintro ⟨⟨inner, rest, hstart, has, hend⟩, haccepts⟩
    exact ⟨inner, rest, hstart, ⟨has, haccepts⟩, hend⟩

end Series

/-- Keeps a member before those read so far. -/
def keepMember (members : List (String × Json)) (name : String) (v : Json) :
    Reading (List (String × Json)) := .ok ((name, v) :: members)

theorem foldl_keepMember (ms : List (String × Json)) :
    ms.foldl (fun members m => (m.1, settle m.2) :: members) [] = (settleMembers ms).reverse := by
  rw [settleMembers_eq_map, ← List.append_nil (List.reverse _)]
  exact List.foldl_flip_cons_eq_append

/-- **A document has no choice of members**: two lists of them settle to the same, the
overridden ones included. -/
theorem settleMembers_eq_of_objectDocument {ms ms' : List (String × Json)} {content : Bytes}
    (h : ObjectDocument ms content) (h' : ObjectDocument ms' content) :
    settleMembers ms = settleMembers ms' := by
  -- a reader that keeps all members, the latest first, reads both lists
  have hread := fun acc => @readAll_readObjectAs_eq_ok_iff content _ _ _ _ _ .map [] acc
    (@ReadsValues.named _ _ (readsValues (depthLimit - 1)) keepMember (fun _ => True)
      (fun members m => (m.1, settle m.2) :: members) (by simp [keepMember, eq_comm]))
  simp only [and_true, foldl_keepMember] at hread
  have hms := (hread _).2 ⟨ms, h, rfl⟩
  have hms' := (hread _).2 ⟨ms', h', rfl⟩
  rw [hms] at hms'
  exact List.reverse_injective (Except.ok.inj hms')

end Json

/-! ### Reading inside a document -/

namespace Manifest

/-- **A value that is a replacement anywhere**: a text, `null` or `false`. -/
def IsReplacement (v : Json) : Prop := (∃ s, v = .string s) ∨ v = .null ∨ v = .boolean false

/-- **A value of the older layout**: an object whose last `path` is a text. -/
def IsWrapped (v : Json) : Prop :=
  ∃ members s, v = .object members ∧ Entries.get? members.reverse "path" = some (.string s)

/-- The text that a value is, if it is one. -/
def text? : Json → Option String
  | .string s => some s
  | _ => none

variable {v : Json} {m m' : Manifest} {content : Bytes}

theorem isReplacement_settle_iff : IsReplacement (Json.settle v) ↔ IsReplacement v := by
  cases v <;> simp [IsReplacement, Json.settle]

theorem putMember_eq_ok_iff {path : String} :
    putMember m path (Json.settle v) = .ok m' ↔
      IsReplacement v ∧ m' = m.put path (text? v) := by
  rcases v with _ | (_ | _) | _ | _ | _ | _ <;>
    simp [putMember, Json.settle, IsReplacement, text?, eq_comm]

/-- A manifest inside a document is an object all of whose values are replacements, and
they have been put into it one after the other. -/
theorem parseInline_eq_ok_iff :
    parseInline content = .ok m ↔
      ∃ ms, Json.ObjectDocument ms content ∧ (∀ e ∈ ms, IsReplacement e.2) ∧
        m = ms.foldl (fun m e => m.put e.1 (text? e.2)) Table.empty := by
  have hread : Json.readAll (Json.readObjectAs .inlineManifest
      (readInlineMember (Json.depthLimit - 1)) Table.empty) content = .ok m ↔ _ :=
    Json.readAll_readObjectAs_eq_ok_iff (@Json.ReadsValues.named _ _
      (Json.readsValues (Json.depthLimit - 1)) putMember IsReplacement
      (fun m e => m.put e.1 (text? e.2)) putMember_eq_ok_iff)
  simp only [Json.objectOf_and_iff, and_assoc] at hread
  exact hread

/-! ### Reading in a file -/

section File

variable {ms : List (String × Json)}

theorem settledMembers_eq_map (ms : List (String × Json)) :
    settledMembers ms = (Entries.settle ms).map fun e => (e.1, Json.settle e.2) := by
  rw [settledMembers, Json.settleMembers_eq_map, Entries.settle_map]

theorem get?_settledMembers (ms : List (String × Json)) (k : String) :
    Entries.get? (settledMembers ms) k = (Entries.get? ms.reverse k).map Json.settle := by
  rw [settledMembers_eq_map, Entries.get?_map, Entries.get?_settle]

theorem mem_settledMembers_iff {e : String × Json} :
    e ∈ settledMembers ms ↔ ∃ v, Entries.get? ms.reverse e.1 = some v ∧ Json.settle v = e.2 := by
  rw [← Option.map_eq_some_iff, ← get?_settledMembers]
  exact ⟨Entries.get?_of_mem (nodup_settledMembers ms), Entries.mem_of_get?⟩

theorem meaning?_settle_of_isReplacement (h : IsReplacement v) :
    meaning? (Json.settle v) = some (text? v) := by
  obtain ⟨s, rfl⟩ | rfl | rfl := h <;> rfl

theorem isSome_meaning?_settle_object_iff {members : List (String × Json)} :
    (meaning? (Json.settle (.object members))).isSome ↔
      ∃ s, Entries.get? members.reverse "path" = some (.string s) := by
  have hpath := get?_settledMembers members "path"
  rw [settledMembers] at hpath
  rw [Json.settle, meaning?, hpath]
  rcases Entries.get? members.reverse "path" with _ | w
  · simp
  · cases w <;> simp [Json.settle]

/-- What means something in a file: a replacement, or a value of the older layout. -/
theorem isSome_meaning?_settle_iff :
    (meaning? (Json.settle v)).isSome ↔ IsReplacement v ∨ IsWrapped v := by
  rcases v with _ | (_ | _) | _ | _ | _ | members
  case object => simp [isSome_meaning?_settle_object_iff, IsReplacement, IsWrapped]
  all_goals simp [meaning?, Json.settle, IsReplacement, IsWrapped]

/-- A file is a manifest exactly if each value that counts means something. -/
theorem exists_foldlM_addMember_iff :
    (∃ m, (settledMembers ms).foldlM addMember Table.empty = .ok m) ↔
      ∀ e ∈ settledMembers ms, (meaning? e.2).isSome := by
  have hn : (Entries.keys (Table.empty : Manifest).entries ++
      Entries.keys (settledMembers ms)).Nodup := nodup_settledMembers ms
  constructor
  · rintro ⟨m, hm⟩ e he
    rw [foldlM_addMember_eq_ok_iff hn, Table.entries_empty, List.map_nil, List.nil_append] at hm
    have hmem : (e.1, meaning? e.2) ∈ m.entries.map fun e => (e.1, some e.2) :=
      hm ▸ List.mem_map_of_mem he
    obtain ⟨e', -, he'⟩ := List.mem_map.1 hmem
    rw [← (Prod.mk.inj he').2]
    rfl
  · intro hall
    rcases hm : (settledMembers ms).foldlM addMember Table.empty with failure | m
    · obtain ⟨before, e, after, hes, -, hnone, -⟩ := foldlM_addMember_eq_error_iff.1 hm
      have := hall e (hes ▸ List.mem_append_right before List.mem_cons_self)
      rw [hnone] at this
      cases this
    · exact ⟨m, rfl⟩

/-- Members that are all replacements come to the same one after the other and settled. -/
theorem foldlM_addMember_of_isReplacement (h : ∀ e ∈ ms, IsReplacement e.2) :
    (settledMembers ms).foldlM addMember Table.empty =
      .ok (ms.foldl (fun (m : Manifest) e => m.put e.1 (text? e.2)) Table.empty) := by
  have hn : (Entries.keys (Table.empty : Manifest).entries ++
      Entries.keys (settledMembers ms)).Nodup := nodup_settledMembers ms
  rw [foldlM_addMember_eq_ok_iff hn, Entries.entries_foldl_put, settledMembers_eq_map,
    Table.entries_empty, List.map_nil, List.nil_append, List.map_map, List.map_map]
  refine List.map_congr_left fun e he => ?_
  have hr := meaning?_settle_of_isReplacement (h e (Entries.mem_of_mem_settle he))
  simp [hr]

end File

/-! ### The two readings -/

/-- **Inside a document and in a file.** For a text that is one object, with any members
and any of them given more than once: inside a document it is a manifest exactly if all
values are replacements, overridden ones included; in a file it is one exactly if the
last value of each path is a replacement or a value of the older layout; and a manifest
that it is inside a document it is in a file, with the same paths in the same order and
the same replacements. -/
theorem parse_of_parseInline (path : FilePath) (content : Bytes) (ms : List (String × Json))
    (h : Json.ObjectDocument ms content) :
    ((∃ m, parseInline content = .ok m) ↔ ∀ e ∈ ms, IsReplacement e.2) ∧
    ((∃ m, (parse path content).value = .ok m) ↔
      ∀ k v, Entries.get? ms.reverse k = some v → IsReplacement v ∨ IsWrapped v) ∧
    ∀ m, parseInline content = .ok m → (parse path content).value = .ok m := by
  refine ⟨⟨?_, fun hall => ⟨_, parseInline_eq_ok_iff.2 ⟨ms, h, hall, rfl⟩⟩⟩, ?_, fun m hm => ?_⟩
  · rintro ⟨m, hm⟩ e he
    obtain ⟨ms', h', hall, -⟩ := parseInline_eq_ok_iff.1 hm
    -- the members that were read and those given settle to the same
    have hsettled : (e.1, Json.settle e.2) ∈ Json.settleMembers ms' := by
      rw [← Json.settleMembers_eq_of_objectDocument h h', Json.settleMembers_eq_map]
      exact List.mem_map_of_mem he
    rw [Json.settleMembers_eq_map] at hsettled
    obtain ⟨e', he', heq⟩ := List.mem_map.1 hsettled
    rw [← isReplacement_settle_iff, ← (Prod.mk.inj heq).2, isReplacement_settle_iff]
    exact hall e' he'
  · rw [value_parse_of_document h, exists_foldlM_addMember_iff]
    constructor
    · intro hall k v hv
      exact isSome_meaning?_settle_iff.1 (hall (k, Json.settle v)
        (mem_settledMembers_iff.2 ⟨v, hv, rfl⟩))
    · rintro hall ⟨k, w⟩ he
      obtain ⟨v, hv, rfl⟩ := mem_settledMembers_iff.1 he
      exact isSome_meaning?_settle_iff.2 (hall k v hv)
  · obtain ⟨ms', h', hall, rfl⟩ := parseInline_eq_ok_iff.1 hm
    rw [value_parse_of_document h', foldlM_addMember_of_isReplacement hall]

/-- A text that gives a path twice, the other one in between. -/
def overridden : Bytes := Text.encode "\x7b\"a\":\"x\",\"b\":null,\"a\":false\x7d"

/-- The path given twice stays first, and it is removed. -/
theorem parse_of_parseInline_overridden :
    ∃ ms m, Json.ObjectDocument ms overridden ∧ parseInline overridden = .ok m ∧
      m.entries = [("a", none), ("b", none)] ∧ (parse "map.json" overridden).value = .ok m := by
  have hentries : (parseInline overridden).toOption.map Table.entries =
      some [("a", none), ("b", none)] := by decide
  obtain ⟨m, hm, he⟩ : ∃ m, parseInline overridden = .ok m ∧
      m.entries = [("a", none), ("b", none)] := by
    rcases hv : parseInline overridden with failure | m
    · rw [hv] at hentries
      cases hentries
    · rw [hv] at hentries
      exact ⟨m, rfl, Option.some.inj hentries⟩
  obtain ⟨ms, hms, -⟩ := parseInline_eq_ok_iff.1 hm
  exact ⟨ms, m, hms, hm, he, (parse_of_parseInline "map.json" overridden ms hms).2.2 m hm⟩

end Manifest

end Relink
