import Relink.Manifest.File
import Relink.Proofs.Json.Values

/-!
# What a manifest file means

A manifest file is read in three steps, and each of them could get in the way of the
others. What the file means is said here without them. Either its bytes are not one
JSON object, and then nothing else matters; or they are one with certain members. A
path stands where it came first, with the value that it had last, so that a later
member can mend or spoil an earlier one, and the same goes for the members of an
object of the older layout. If all values are replacements, the manifest has these
paths in this order; if not, the first path whose value is none is named.

That the bytes are an object is a matter of grammar (`Relink.Json.ObjectDocument`), and
so a fault at their end goes before anything that is wrong with an entry.
-/

namespace Relink

/-! ### Objects -/

namespace Json

variable {content : Bytes}

theorem readAll_eq_ok_iff {α : Type} {read : Bytes → Reading (α × Bytes)} {a : α} :
    readAll read content = .ok a ↔ ∃ rest, read content = .ok (a, rest) ∧ Blanks rest [] := by
  rcases hr : read content with fault | ⟨a', rest⟩
  · simp [readAll, hr]
  · by_cases hs : skipBlanks rest = []
    · have hb := skipBlanks_eq_nil_iff.1 hs
      simp only [readAll, hr, hs, List.isEmpty_nil, if_true]
      constructor
      · intro h
        cases h
        exact ⟨rest, rfl, hb⟩
      · rintro ⟨rest', h, -⟩
        cases h
        rfl
    · simp only [readAll, hr, List.isEmpty_iff, hs, if_false]
      constructor
      · intro h
        cases h
      · rintro ⟨rest', h, hb⟩
        cases h
        exact absurd (skipBlanks_eq_nil_iff.2 hb) hs

section Objects

variable {σ α : Type} {member : σ → String → Bytes → Reading (σ × Bytes)}
  {item : Bytes → α → Bytes → Prop} {add : σ → α → σ}

/-- A document that is one object with the given members, each of them an item. -/
def ObjectOf (item : Bytes → α → Bytes → Prop) (as : List α) (bs : Bytes) : Prop :=
  ∃ inner rest, Blanks bs (byte '\x7b' :: inner) ∧
    Series (byte '\x7d') item true inner as rest ∧ Blanks rest []

/-- Reads an object where one is wanted. -/
def readObjectAs (expected : Expected) (member : σ → String → Bytes → Reading (σ × Bytes))
    (s : σ) (bs : Bytes) : Reading (σ × Bytes) :=
  match skipBlanks bs with
  | [] => .error .truncated
  | b :: rest =>
    if b = byte '\x7b' then readObject member s rest
    else .error (wrongKind expected (b :: rest))

/-- **A document is read exactly if it is an object** all of whose members are read, and
what they come to is what has been read. -/
theorem readAll_readObjectAs_eq_ok_iff {expected : Expected} {s s' : σ}
    (hr : Reads (byte '\x7d') (readNamed member) item add) :
    readAll (readObjectAs expected member s) content = .ok s' ↔
      ∃ as, ObjectOf item as content ∧ s' = as.foldl add s := by
  have hloop : ∀ {inner rest : Bytes}, readObject member s inner = .ok (s', rest) ↔
      ∃ as, Series (byte '\x7d') item true inner as rest ∧ s' = as.foldl add s :=
    (loop_readMembers member).eq_ok_iff hr (.inr rfl)
  rw [readAll_eq_ok_iff]
  constructor
  · rintro ⟨rest, h, hend⟩
    rcases hs : skipBlanks content with _ | ⟨b, inner⟩
    · simp [readObjectAs, hs] at h
    · by_cases hb : b = byte '\x7b'
      · subst hb
        simp only [readObjectAs, hs, if_true] at h
        obtain ⟨as, has, rfl⟩ := hloop.1 h
        exact ⟨as, ⟨inner, rest, (skipBlanks_eq_cons_iff.1 hs).1, has, hend⟩, rfl⟩
      · simp [readObjectAs, hs, hb] at h
  · rintro ⟨as, ⟨inner, rest, hstart, has, hend⟩, rfl⟩
    refine ⟨rest, ?_, hend⟩
    simp only [readObjectAs, skipBlanks_eq_cons_iff.2 ⟨hstart, by decide⟩, if_true]
    exact hloop.2 ⟨as, has, rfl⟩

end Objects

/-- A document whose members are wanted as they are is read, and they are settled. -/
theorem readAll_readMembers_eq_ok_iff {members : Entries Json} :
    readAll Manifest.readMembers content = .ok members ↔
      ∃ ms, ObjectDocument ms content ∧ members = Entries.settle (settleMembers ms) := by
  have hread : readAll (readObjectAs .map (readMember (readValue (depthLimit - 1))) []) content =
      .ok members ↔ ∃ ms, ObjectOf (Member (Value (depthLimit - 1))) ms content ∧
        members = ms.foldl (fun es m => Entries.put es m.1 (settle m.2)) [] :=
    readAll_readObjectAs_eq_ok_iff (readsValues (depthLimit - 1)).member
  simp only [foldl_members] at hread
  exact hread

end Json

/-! ### Entries -/

namespace Manifest

/-- What a value means for its path: a text is the replacement, `null` and `false`
remove, and an object of the older layout means what its `path` does, if that is a
text. Nothing else is a replacement. -/
def meaning? : Json → Option (Option String)
  | .string s => some (some s)
  | .null => some none
  | .boolean false => some none
  | .object members =>
    match Entries.get? members "path" with
    | some (.string s) => some (some s)
    | _ => none
  | _ => none

/-- The value of an entry without the older layout around it. -/
def unwrapped (v : Json) : Json :=
  match wrapped? v with
  | some s => .string s
  | none => v

theorem replacement?_unwrapped (v : Json) : replacement? (unwrapped v) = meaning? v := by
  cases v with
  | object members =>
    rcases h : Entries.get? members "path" with _ | w
    · simp [unwrapped, wrapped?, meaning?, replacement?, h]
    · cases w <;> simp [unwrapped, wrapped?, meaning?, replacement?, h]
  | boolean b => cases b <;> rfl
  | _ => rfl

theorem value_unwrap (es : Entries Json) :
    (unwrap es).value = es.map fun e => (e.1, unwrapped e.2) := by
  induction es with
  | nil => rfl
  | cons e es ih =>
    rcases h : wrapped? e.2 with _ | s
    · simp [unwrap, unwrapped, h, ih]
    · simp [unwrap, unwrapped, h, ih]

/-- Adds an entry with what its value means. -/
def addMember (m : Manifest) (e : String × Json) : Except Failure Manifest :=
  match meaning? e.2 with
  | some r => .ok (m.put e.1 r)
  | none => .error (.badReplacement e.1)

/-- Unwrapping all values first and taking each for a replacement afterwards comes to
asking each for its meaning. -/
theorem ofMembers_unwrap (es : Entries Json) :
    ofMembers (unwrap es).value = es.foldlM addMember Table.empty := by
  have hstep : ∀ (m : Manifest) (e : String × Json), addMember m e =
      match replacement? (unwrapped e.2) with
      | some r => .ok (m.put e.1 r)
      | none => .error (.badReplacement e.1) := by
    intro m e
    rw [addMember, replacement?_unwrapped]
  rw [value_unwrap, ofMembers, List.foldlM_map]
  congr 1
  funext m e
  exact (hstep m e).symm

section Fold

variable {es : Entries Json} {m m' : Manifest} {e : String × Json} {r : Option String}

theorem foldlM_addMember_of_some (h : meaning? e.2 = some r) :
    (e :: es).foldlM addMember m = es.foldlM addMember (m.put e.1 r) := by
  simp [List.foldlM_cons, addMember, h, bind, Except.bind]

theorem foldlM_addMember_of_none (h : meaning? e.2 = none) :
    (e :: es).foldlM addMember m = .error (.badReplacement e.1) := by
  simp [List.foldlM_cons, addMember, h, bind, Except.bind]

/-- A path that the manifest does not have yet goes to its end. -/
theorem entries_put_of_nodup
    (hn : (Entries.keys m.entries ++ Entries.keys (e :: es)).Nodup) (r : Option String) :
    (m.put e.1 r).entries = m.entries ++ [(e.1, r)] := by
  refine Entries.put_of_notMem (fun hk => ?_) r
  exact (List.nodup_append.1 hn).2.2 _ hk _ (by simp) rfl

theorem nodup_put_append
    (hn : (Entries.keys m.entries ++ Entries.keys (e :: es)).Nodup) (r : Option String) :
    (Entries.keys (m.put e.1 r).entries ++ Entries.keys es).Nodup := by
  rw [entries_put_of_nodup hn r]
  simpa using hn

/-- All entries are added if all of their values mean something. -/
theorem foldlM_addMember_eq_ok_iff (hn : (Entries.keys m.entries ++ Entries.keys es).Nodup) :
    es.foldlM addMember m = .ok m' ↔
      m'.entries.map (fun e => (e.1, some e.2)) =
        m.entries.map (fun e => (e.1, some e.2)) ++ es.map fun e => (e.1, meaning? e.2) := by
  induction es generalizing m with
  | nil =>
    have hinj : Function.Injective fun e : String × Option String => (e.1, some e.2) := by
      rintro ⟨k, r⟩ ⟨k', r'⟩ h
      simpa using h
    rw [List.map_nil, List.append_nil, (List.map_injective_iff.2 hinj).eq_iff]
    constructor
    · intro h
      cases h
      rfl
    · intro h
      obtain rfl := Table.eq_of_entries h
      rfl
  | cons e es ih =>
    rcases hr : meaning? e.2 with _ | r
    · rw [foldlM_addMember_of_none hr]
      constructor
      · intro h
        cases h
      · -- a manifest that has all entries would have one that means nothing
        intro h
        have he : (e.1, (none : Option (Option String))) ∈
            m'.entries.map fun e => (e.1, some e.2) := by
          rw [h, List.map_cons, hr]
          simp
        simp at he
    · rw [foldlM_addMember_of_some hr, ih (nodup_put_append hn r), entries_put_of_nodup hn r,
        List.map_cons, hr]
      simp

/-- The first entry is named whose value means nothing. -/
theorem foldlM_addMember_eq_error_iff {failure : Failure} :
    es.foldlM addMember m = .error failure ↔
      ∃ before e after, es = before ++ e :: after ∧
        (∀ e ∈ before, (meaning? e.2).isSome) ∧ meaning? e.2 = none ∧
        failure = .badReplacement e.1 := by
  induction es generalizing m with
  | nil => simp [pure, Except.pure]
  | cons e es ih =>
    rcases hr : meaning? e.2 with _ | r
    · rw [foldlM_addMember_of_none hr]
      constructor
      · intro h
        cases h
        exact ⟨[], e, es, rfl, by simp, hr, rfl⟩
      · rintro ⟨before, e', after, hes, hbefore, -, rfl⟩
        rcases before with _ | ⟨b, before⟩
        · cases hes
          rfl
        · cases hes
          have := hbefore e (by simp)
          rw [hr] at this
          cases this
    · -- the entry is one of those before the first that means nothing, if there is one
      rw [foldlM_addMember_of_some hr, ih]
      constructor
      · rintro ⟨before, e', after, rfl, hbefore, hnone, hf⟩
        exact ⟨e :: before, e', after, rfl, by simpa [hr] using hbefore, hnone, hf⟩
      · rintro ⟨before, e', after, hes, hbefore, hnone, hf⟩
        rcases before with _ | ⟨b, before⟩
        · cases hes
          rw [hr] at hnone
          cases hnone
        · cases hes
          exact ⟨before, e', after, rfl, fun b hb => hbefore b (List.mem_cons_of_mem _ hb),
            hnone, hf⟩

end Fold

/-! ### The whole file -/

/-- The members of an object as they count: each path where it came first, with the
value that it had last, and so in all objects inside. -/
def settledMembers (ms : List (String × Json)) : Entries Json :=
  Entries.settle (Json.settleMembers ms)

theorem nodup_settledMembers (ms : List (String × Json)) :
    (Entries.keys (settledMembers ms)).Nodup := by
  rw [settledMembers, Entries.keys_settle]
  exact nodup_distinct _

theorem value_parse_of_error {path : FilePath} {content : Bytes} {fault : Json.Fault}
    (h : Json.readAll readMembers content = .error fault) :
    (parse path content).value = .error (.manifestMalformed path fault) := by
  simp [parse, h]

/-- All that a document comes to is decided by the members that count. -/
theorem value_parse_of_document {path : FilePath} {content : Bytes} {ms : List (String × Json)}
    (h : Json.ObjectDocument ms content) :
    (parse path content).value = (settledMembers ms).foldlM addMember Table.empty := by
  have hread : Json.readAll readMembers content = .ok (settledMembers ms) :=
    Json.readAll_readMembers_eq_ok_iff.2 ⟨ms, h, rfl⟩
  simp only [parse, hread, Logged.value_bind, Logged.value_pure, ofMembers_unwrap]

/-- **What a manifest file means.** It is malformed exactly if its bytes are not one
object. If they are, either all values that count are replacements, and the manifest
has exactly the paths that count, in their order, with what their values mean; or the
first path is named whose value is none. -/
theorem parse_eq_meaning (path : FilePath) (content : Bytes) :
    ((∃ fault, (parse path content).value = .error (.manifestMalformed path fault)) ↔
      ¬∃ ms, Json.ObjectDocument ms content) ∧
    ∀ ms, Json.ObjectDocument ms content →
      (∀ m, (parse path content).value = .ok m ↔
        m.entries.map (fun e => (e.1, some e.2)) =
          (settledMembers ms).map fun e => (e.1, meaning? e.2)) ∧
      (∀ failure, (parse path content).value = .error failure ↔
        ∃ before e after, settledMembers ms = before ++ e :: after ∧
          (∀ e ∈ before, (meaning? e.2).isSome) ∧ meaning? e.2 = none ∧
          failure = .badReplacement e.1) := by
  refine ⟨⟨?_, fun h => ?_⟩, fun ms h => ?_⟩
  · -- a document never comes to this failure, since no entry does
    rintro ⟨fault, hfault⟩ ⟨ms, h⟩
    rw [value_parse_of_document h, foldlM_addMember_eq_error_iff] at hfault
    obtain ⟨before, e, after, -, -, -, hf⟩ := hfault
    cases hf
  · rcases hr : Json.readAll readMembers content with fault | members
    · exact ⟨fault, value_parse_of_error hr⟩
    · obtain ⟨ms, hms, -⟩ := Json.readAll_readMembers_eq_ok_iff.1 hr
      exact absurd ⟨ms, hms⟩ h
  · rw [value_parse_of_document h]
    refine ⟨fun m => ?_, fun failure => foldlM_addMember_eq_error_iff⟩
    have hn : (Entries.keys (Table.empty : Manifest).entries ++
        Entries.keys (settledMembers ms)).Nodup := nodup_settledMembers ms
    rw [foldlM_addMember_eq_ok_iff hn, Table.entries_empty, List.map_nil, List.nil_append]

/-- A file that would be refused for its first member, if that were not mended by its
last one. -/
def mended : Bytes :=
  Text.encode "\x7b\"a\":1,\"b\":\x7b\"path\":null,\"path\":\"x\"\x7d,\"a\":null\x7d"

/-- A later member mends an earlier one and leaves it where it was, and so does a later
`path` inside. -/
theorem parse_eq_meaning_mended :
    ∃ ms m, Json.ObjectDocument ms mended ∧ (parse "map.json" mended).value = .ok m ∧
      m.entries = [("a", none), ("b", some "x")] ∧
      (settledMembers ms).map (fun e => (e.1, meaning? e.2)) =
        [("a", some none), ("b", some (some "x"))] := by
  obtain ⟨hmalformed, hmeaning⟩ := parse_eq_meaning "map.json" mended
  -- what the file comes to is computed; that it is a document follows from that
  have hentries : (parse "map.json" mended).value.toOption.map Table.entries =
      some [("a", none), ("b", some "x")] := by decide
  obtain ⟨m, hm, he⟩ : ∃ m, (parse "map.json" mended).value = .ok m ∧
      m.entries = [("a", none), ("b", some "x")] := by
    rcases hv : (parse "map.json" mended).value with failure | m
    · rw [hv] at hentries
      cases hentries
    · rw [hv] at hentries
      exact ⟨m, rfl, Option.some.inj hentries⟩
  obtain ⟨ms, hms⟩ : ∃ ms, Json.ObjectDocument ms mended := by
    by_contra hnone
    obtain ⟨fault, hf⟩ := hmalformed.2 hnone
    rw [hm] at hf
    cases hf
  have hmap := ((hmeaning ms hms).1 m).1 hm
  rw [he] at hmap
  exact ⟨ms, m, hms, hm, he, hmap.symm⟩

end Manifest

end Relink
