import Relink.Proofs.InlineManifest
import Relink.Proofs.Json.Skip
import Relink.Settings.Json

/-!
# What settings in JSON say

Settings are read from left to right, with a reader for each field and nothing kept but
what has been given so far. What they say can be told from the fields as a list, in
whatever order they come (`Settings.IsSaid`): the source is given once, under one of its
names, by a text or by an object of replacements; the scope is given at most once, by an
object of lists of texts; and fields with other names may be there as often as they like,
with any value that is JSON at all.

The document itself may also be an array of the two values. That is all there is to it
(`Settings.parseJson_eq_ok_iff`): no other document is accepted.

Within the two values nothing is forgiven, since each part is looked at as it is read: a
replacement or a list that is overridden later on has to be one nevertheless.
-/

namespace Relink

namespace Json

/-! ### Values that are wanted -/

namespace Raw

/-- A text. -/
def ofText (s : String) : Raw := .string (some s)

/-- A list of texts. -/
def ofNames (names : List String) : Raw := .array (names.map ofText)

/-- An object whose names are texts. -/
def ofMembers (ms : List (String × Raw)) : Raw := .object (ms.map fun m => (some m.1, m.2))

/-- **A value that is a replacement**: a text, `null` or `false`. -/
def IsReplacement (v : Raw) : Prop := (∃ s, v = ofText s) ∨ v = .null ∨ v = .boolean false

/-- The text of a value, if it is one. -/
def text? : Raw → Option String
  | .string s => s
  | _ => none

end Raw

section Readers

variable {α : Type} {bs rest : Bytes} {s : String}

theorem spelled_ofText_iff :
    Spelled bs (.ofText s) rest ↔ ∃ t, bs = byte '"' :: t ∧ TextRest t s rest := by
  simp only [spelled_iff, Raw.ofText, Spells, rawText_some_iff]

/-- Reads what begins with a certain byte, behind it. -/
def readBehind (c : UInt8) (fault : Bytes → Fault) (read : Bytes → Reading α) (bs : Bytes) :
    Reading α :=
  match skipBlanks bs with
  | [] => .error .truncated
  | b :: rest => if b = c then read rest else .error (fault (b :: rest))

theorem readBehind_eq_ok_iff {c : UInt8} {fault : Bytes → Fault} {read : Bytes → Reading α}
    {a : α} :
    readBehind c fault read bs = .ok a ↔ ∃ t, skipBlanks bs = c :: t ∧ read t = .ok a := by
  rcases hs : skipBlanks bs with _ | ⟨b, t⟩
  · simp [readBehind, hs]
  · by_cases hb : b = c <;> simp [readBehind, hs, hb]

theorem readString_eq_ok_iff {expected : Expected} :
    readString expected bs = .ok (s, rest) ↔ Spelled (skipBlanks bs) (.ofText s) rest := by
  have h : readString expected bs = readBehind (byte '"') (wrongKind expected) readText bs := rfl
  rw [h, readBehind_eq_ok_iff, spelled_ofText_iff]
  simp only [readText_eq_ok_iff]

variable {σ : Type} {member : σ → String → Bytes → Reading (σ × Bytes)} {state state' : σ}

theorem readNamed_eq_ok_iff :
    readNamed member state bs = .ok (state', rest) ↔
      ∃ name a, readName bs = .ok (name, a) ∧ member state name a = .ok (state', rest) := by
  rw [readNamed, bind_eq_ok_iff, Prod.exists]

/-- A member is read name first, then the colon. -/
theorem rawMember_iff {name : String} {v : Raw} :
    RawMember Spelled bs (some name, v) rest ↔
      ∃ a a', readName bs = .ok (name, a) ∧ readColon a = .ok a' ∧
        Spelled (skipBlanks a') v rest := by
  simp only [readName_eq_ok_iff, readColon_eq,
    readMark_eq_ok_iff (show isBlank (byte ':') = false by decide)]
  constructor
  · rintro ⟨text, colon, blanks, h⟩
    have hs := blanks.skipBlanks_eq.trans h.begins.skipBlanks_eq
    exact ⟨_, _, ⟨_, rfl, rawText_some_iff.1 text⟩, colon, hs.symm ▸ h⟩
  · rintro ⟨a, a', ⟨t, rfl, text⟩, colon, h⟩
    exact .mk (.known text) colon (blanks_skipBlanks a') h

/-- A document is read exactly from what it says, if its values are. -/
theorem readAll_eq_ok_iff_document {read : Bytes → Reading (α × Bytes)} {Says : Raw → α → Prop}
    (hread : ∀ {bs a rest},
      read bs = .ok (a, rest) ↔ ∃ v, Spelled (skipBlanks bs) v rest ∧ Says v a)
    {content : Bytes} {a : α} :
    readAll read content = .ok a ↔ ∃ v, v.Document content ∧ Says v a := by
  simp only [readAll_eq_ok_iff, hread]
  constructor
  · rintro ⟨rest, ⟨v, hv, hsays⟩, hrest⟩
    exact ⟨v, ⟨_, rest, blanks_skipBlanks _, hv, hrest⟩, hsays⟩
  · rintro ⟨v, ⟨mid, rest, hmid, hv, hrest⟩, hsays⟩
    have hs := hmid.skipBlanks_eq.trans hv.begins.skipBlanks_eq
    exact ⟨rest, ⟨v, hs.symm ▸ hv, hsays⟩, hrest⟩

end Readers

section Series

variable {α β : Type} {close : UInt8} {item : Bytes → β → Bytes → Prop} {first : Bool}
  {bs rest : Bytes}

/-- A series of items that are made of something is a series of it. -/
theorem series_map_iff {f : α → β} {as : List α} :
    Series close item first bs (as.map f) rest ↔
      Series close (fun bs a rest => item bs (f a) rest) first bs as rest := by
  constructor
  · intro h
    generalize hbs : as.map f = fas at h
    induction h generalizing as with
    | close h =>
      obtain rfl := List.map_eq_nil_iff.1 hbs
      exact .close h
    | item opens h _ ih =>
      obtain ⟨a, as, rfl, rfl, rfl⟩ := List.map_eq_cons_iff.1 hbs
      exact .item opens h (ih rfl)
  · intro h
    induction h with
    | close h => exact .close h
    | item opens h _ ih => exact .item opens h ih

/-- The members of an object, from behind its bracket, that are made of something. -/
theorem spelled_ofMembers_iff {f : α → String × Raw} {as : List α} :
    Spelled bs (.ofMembers (as.map f)) rest ↔
      ∃ t, bs = byte '\x7b' :: t ∧ Series (byte '\x7d')
        (fun bs a rest => RawMember Spelled bs (some (f a).1, (f a).2) rest) true t as rest := by
  rw [spelled_iff]
  simp only [Raw.ofMembers, Spells, List.map_map, series_map_iff, Function.comp_apply]

end Series

end Json

/-! ### Scopes -/

namespace Scope

open Json

variable {bs rest : Bytes}

/-- **What a scope is said by**: an object of lists of texts. -/
def IsSaid (v : Raw) (s : Scope) : Prop :=
  ∃ ps : List (String × List String),
    v = .ofMembers (ps.map fun p => (p.1, .ofNames p.2)) ∧ s = ofList ps

theorem reads_name :
    Reads (byte ']') readName (fun bs n rest => Spelled bs (.ofText n) rest)
      fun names n => n :: names where
  sound {names b t names' rest} hb h := by
    obtain ⟨⟨n, rest'⟩, hn, h⟩ := bind_eq_ok_iff.1 h
    cases h
    rw [readString_eq_ok_iff, skipBlanks_cons hb] at hn
    exact ⟨n, hn, rfl⟩
  complete {bs n rest} names h _ := by
    rw [← h.begins.skipBlanks_eq] at h
    exact bind_eq_ok_iff.2 ⟨(n, rest), readString_eq_ok_iff.2 h, rfl⟩
  begins h := by
    obtain ⟨b, t, rfl, hb, hne, -⟩ := h.begins
    exact ⟨b, t, rfl, hb, hne⟩
  length_lt h := h.length_lt

theorem readNames_eq_ok_iff {names : List String} :
    readNames bs = .ok (names, rest) ↔ Spelled (skipBlanks bs) (.ofNames names) rest := by
  have h : readNames bs = readBehind (byte '[') (wrongKind .sequence)
      (fun rest => readArray readName [] rest >>= fun x => .ok (x.1.reverse, x.2)) bs := rfl
  have hloop {t : Bytes} {acc : List String} : readArray readName [] t = .ok (acc, rest) ↔ _ :=
    (loop_readItems readName).eq_ok_iff reads_name (.inl rfl)
  rw [h, readBehind_eq_ok_iff, spelled_iff]
  simp only [Raw.ofNames, Spells, series_map_iff]
  refine exists_congr fun t => and_congr_right fun _ => ?_
  rw [bind_eq_ok_iff, Prod.exists]
  constructor
  · rintro ⟨acc, rest', hread, h⟩
    cases h
    obtain ⟨names, hnames, rfl⟩ := hloop.1 hread
    rwa [List.foldl_flip_cons_eq_append', List.append_nil, List.reverse_reverse]
  · intro hnames
    refine ⟨names.reverse, rest, hloop.2 ⟨names, hnames, ?_⟩, by rw [List.reverse_reverse]⟩
    rw [List.foldl_flip_cons_eq_append', List.append_nil]

theorem reads_member :
    Reads (byte '\x7d') (readNamed readMember)
      (fun bs (p : String × List String) rest =>
        RawMember Spelled bs (some p.1, .ofNames p.2) rest)
      fun s p => s.put p.1 p.2 where
  sound {s b t s' rest} _ h := by
    obtain ⟨tag, a, hname, h⟩ := readNamed_eq_ok_iff.1 h
    obtain ⟨a', hcolon, h⟩ := bind_eq_ok_iff.1 h
    obtain ⟨⟨names, rest'⟩, hnames, h⟩ := bind_eq_ok_iff.1 h
    cases h
    exact ⟨(tag, names),
      rawMember_iff.2 ⟨a, a', hname, hcolon, readNames_eq_ok_iff.1 hnames⟩, rfl⟩
  complete {bs p rest} s h _ := by
    obtain ⟨a, a', hname, hcolon, hnames⟩ := rawMember_iff.1 h
    exact readNamed_eq_ok_iff.2 ⟨p.1, a, hname, bind_eq_ok_iff.2 ⟨a', hcolon,
      bind_eq_ok_iff.2 ⟨(p.2, rest), readNames_eq_ok_iff.2 hnames, rfl⟩⟩⟩
  begins h := h.begins
  length_lt h := h.length_lt Spelled.length_lt

/-- **A scope is read exactly from what it is said by.** -/
theorem read_eq_ok_iff {s : Scope} :
    read bs = .ok (s, rest) ↔ ∃ v, Spelled (skipBlanks bs) v rest ∧ IsSaid v s := by
  have h : read bs = readBehind (byte '\x7b') (wrongKind .map)
      (readObject readMember empty) bs := rfl
  have hloop {t : Bytes} : readObject readMember empty t = .ok (s, rest) ↔ _ :=
    (loop_readMembers readMember).eq_ok_iff reads_member (.inr rfl)
  rw [h, readBehind_eq_ok_iff]
  simp only [hloop]
  constructor
  · rintro ⟨t, ht, ps, hps, rfl⟩
    exact ⟨_, spelled_ofMembers_iff.2 ⟨t, ht, hps⟩, ps, rfl, rfl⟩
  · rintro ⟨_, hv, ps, rfl, rfl⟩
    obtain ⟨t, ht, hps⟩ := spelled_ofMembers_iff.1 hv
    exact ⟨t, ht, ps, hps, rfl⟩

/-- No name that is looked at is blank. -/
def HasNames (s : Scope) : Prop :=
  ∀ e ∈ s.table.entries, Text.isBlankName e.1 = false ∧ ∀ n ∈ e.2, Text.isBlankName n = false

theorem flaw?_eq_none_iff {s : Scope} : s.flaw? = none ↔ s.HasNames := by
  rw [flaw?, List.findSome?_eq_none_iff]
  refine forall₂_congr fun e _ => ?_
  rcases htag : Text.isBlankName e.1 with _ | _ <;> simp [entryFlaw?, htag]

end Scope

/-! ### Sources -/

namespace ManifestSource

open Json

variable {bs rest : Bytes}

/-- **What a source is said by**: a text, which is the path of the file, or an object of
replacements. -/
inductive IsSaid : Raw → ManifestSource → Prop
  /-- A text is a path. -/
  | file (path : String) : IsSaid (.ofText path) (.file path)
  /-- An object is the manifest. -/
  | inline {ms : List (String × Raw)} (h : ∀ m ∈ ms, m.2.IsReplacement) :
      IsSaid (.ofMembers ms) (.inline (Table.ofList (ms.map fun m => (m.1, m.2.text?))))

/-- The replacements, as they are meant and as they are written. -/
inductive IsWritten : Json → Raw → Prop
  /-- A text. -/
  | string (s : String) : IsWritten (.string s) (.ofText s)
  /-- The null value. -/
  | null : IsWritten .null .null
  /-- False. -/
  | no : IsWritten (.boolean false) (.boolean false)

theorem isReplacement_iff {v : Json} :
    Manifest.IsReplacement v ↔ ∃ w, IsWritten v w := by
  constructor
  · rintro (⟨s, rfl⟩ | rfl | rfl)
    · exact ⟨_, .string s⟩
    · exact ⟨_, .null⟩
    · exact ⟨_, .no⟩
  · rintro ⟨w, hw⟩
    cases hw with
    | string s => exact .inl ⟨s, rfl⟩
    | null => exact .inr (.inl rfl)
    | no => exact .inr (.inr rfl)

theorem raw_isReplacement_iff {w : Raw} : w.IsReplacement ↔ ∃ v, IsWritten v w := by
  constructor
  · rintro (⟨s, rfl⟩ | rfl | rfl)
    · exact ⟨_, .string s⟩
    · exact ⟨_, .null⟩
    · exact ⟨_, .no⟩
  · rintro ⟨v, hv⟩
    cases hv with
    | string s => exact .inl ⟨s, rfl⟩
    | null => exact .inr (.inl rfl)
    | no => exact .inr (.inr rfl)

theorem IsWritten.text?_eq {v : Json} {w : Raw} (h : IsWritten v w) :
    w.text? = Manifest.text? v := by
  cases h <;> rfl

theorem IsWritten.value_iff {v : Json} {w : Raw} (h : IsWritten v w) (depth : Nat) :
    Value depth bs v rest ↔ Spelled bs w rest := by
  have hscalar : Value depth bs v rest ↔ Scalar bs v rest := by
    cases depth with
    | zero => exact Iff.rfl
    | succ depth => cases h <;> simp [Value]
  rw [hscalar]
  cases h with
  | string s =>
    rw [spelled_ofText_iff]
    constructor
    · intro h
      cases h with
      | string h => exact ⟨_, rfl, h⟩
    · rintro ⟨t, rfl, h⟩
      exact .string h
  | null =>
    rw [spelled_iff]
    constructor
    · intro h
      cases h
      rfl
    · rintro rfl
      exact .null rest
  | no =>
    rw [spelled_iff]
    constructor
    · intro h
      cases h
      rfl
    · rintro rfl
      exact .no rest

theorem IsWritten.member_iff {name : String} {v : Json} {w : Raw} (h : IsWritten v w)
    (depth : Nat) :
    Member (Value depth) bs (name, v) rest ↔ RawMember Spelled bs (some name, w) rest := by
  constructor
  · rintro ⟨text, colon, blanks, hv⟩
    exact .mk (.known text) colon blanks ((h.value_iff depth).1 hv)
  · rintro ⟨text, colon, blanks, hw⟩
    exact .mk (rawText_some_iff.1 text) colon blanks ((h.value_iff depth).2 hw)

theorem reads_inlineMember (depth : Nat) :
    Reads (byte '\x7d') (readNamed (Manifest.readInlineMember depth))
      (fun bs (m : String × Raw) rest =>
        RawMember Spelled bs (some m.1, m.2) rest ∧ m.2.IsReplacement)
      fun m e => m.put e.1 e.2.text? := by
  have hr : Reads (byte '\x7d') (readNamed (Manifest.readInlineMember depth)) _ _ :=
    @ReadsValues.named _ _ (readsValues depth) Manifest.putMember Manifest.IsReplacement
      (fun m e => m.put e.1 (Manifest.text? e.2)) Manifest.putMember_eq_ok_iff
  constructor
  · intro m b t m' rest hb h
    obtain ⟨⟨name, v⟩, ⟨hm, hv⟩, rfl⟩ := hr.sound hb h
    obtain ⟨w, hw⟩ := isReplacement_iff.1 hv
    exact ⟨(name, w), ⟨(hw.member_iff depth).1 hm, raw_isReplacement_iff.2 ⟨v, hw⟩⟩,
      by rw [hw.text?_eq]⟩
  · rintro bs ⟨name, w⟩ rest m ⟨hm, h⟩ hf
    obtain ⟨v, hw⟩ := raw_isReplacement_iff.1 h
    rw [hw.text?_eq]
    exact hr.complete m ⟨(hw.member_iff depth).2 hm, isReplacement_iff.2 ⟨w, hw⟩⟩ hf
  · exact fun h => h.1.begins
  · exact fun h => h.1.length_lt Spelled.length_lt

/-- **A source is read exactly from what it is said by.** -/
theorem read_eq_ok_iff {s : ManifestSource} :
    read bs = .ok (s, rest) ↔ ∃ v, Spelled (skipBlanks bs) v rest ∧ IsSaid v s := by
  have hloop {m : Manifest} {t : Bytes} :
      readObject (Manifest.readInlineMember (depthLimit - 1 - 1)) Table.empty t =
        .ok (m, rest) ↔ _ :=
    (loop_readMembers _).eq_ok_iff (reads_inlineMember _) (.inr rfl)
  constructor
  · intro h
    rcases hs : skipBlanks bs with _ | ⟨b, t⟩
    · simp [read, hs] at h
    simp only [read, hs] at h
    split at h
    · next hb =>
      obtain ⟨⟨path, rest'⟩, hp, h⟩ := bind_eq_ok_iff.1 h
      cases h
      exact ⟨_, spelled_ofText_iff.2 ⟨t, by rw [hb], readText_eq_ok_iff.1 hp⟩, .file path⟩
    · split at h
      · next hb =>
        subst hb
        obtain ⟨⟨m, rest'⟩, hm, h⟩ := bind_eq_ok_iff.1 h
        cases h
        rw [Manifest.readInline, skipBlanks_cons (by decide)] at hm
        obtain ⟨ms, hms, rfl⟩ := hloop.1 hm
        obtain ⟨hms, hreplaces⟩ := series_and_iff.1 hms
        refine ⟨.ofMembers ms, ?_, ?_⟩
        · rw [← List.map_id ms]
          exact spelled_ofMembers_iff.2 ⟨t, rfl, hms⟩
        · have h := IsSaid.inline hreplaces
          rwa [Table.ofList, List.foldl_map] at h
      · cases h
  · rintro ⟨v, hv, hsaid⟩
    cases hsaid with
    | file path =>
      obtain ⟨t, hs, hpath⟩ := spelled_ofText_iff.1 hv
      simp only [read, hs, if_true]
      exact bind_eq_ok_iff.2 ⟨(path, rest), readText_eq_ok_iff.2 hpath, rfl⟩
    | @inline ms hreplaces =>
      rw [← List.map_id ms] at hv
      obtain ⟨t, hs, hms⟩ := spelled_ofMembers_iff.1 hv
      have hne : byte '\x7b' ≠ byte '"' := by decide
      have hm : Manifest.readInline (depthLimit - 1) (byte '\x7b' :: t) =
          .ok (Table.ofList (ms.map fun m => (m.1, m.2.text?)), rest) := by
        rw [Manifest.readInline, skipBlanks_cons (by decide)]
        refine hloop.2 ⟨ms, series_and_iff.2 ⟨hms, hreplaces⟩, ?_⟩
        rw [Table.ofList, List.foldl_map]
      simp only [read, hs, hne, if_false, if_true]
      exact bind_eq_ok_iff.2 ⟨_, hm, rfl⟩

end ManifestSource

/-! ### Fields -/

namespace Settings

open Json

/-- The values that are given for a field, under any of its names. -/
def Field.values (field : Field) (fs : List (String × Raw)) : List Raw :=
  (fs.filter fun f => Field.ofName? f.1 = some field).map Prod.snd

/-- **What settings are said by**: a source that is given once, and a scope that is given
once or left to the standard, in any order and among any other fields. -/
structure IsSaid (fs : List (String × Raw)) (s : Settings) : Prop where
  /-- There is one value for the source, and it says it. -/
  source : ∃ v, Field.source.values fs = [v] ∧ s.source.IsSaid v
  /-- There is no value for the scope, or one, and it says it. -/
  scope : Field.scope.values fs = [] ∧ s.scope = Scope.standard ∨
    ∃ v, Field.scope.values fs = [v] ∧ s.scope.IsSaid v

/-- What one field adds to what has been given. -/
def Partial.Adds (p : Partial) (f : String × Raw) (p' : Partial) : Prop :=
  match Field.ofName? f.1 with
  | some .scope => p.scope = none ∧ ∃ s : Scope, s.IsSaid f.2 ∧ p' = ⟨some s, p.source⟩
  | some .source => p.source = none ∧ ∃ s : ManifestSource, s.IsSaid f.2 ∧ p' = ⟨p.scope, some s⟩
  | none => p' = p

section Reading

variable {bs rest : Bytes} {s : Settings} {p p' : Partial} {fs : List (String × Raw)}

/-- A field that must not be given twice. -/
theorem readOnce_eq_ok_iff {α : Type} {before : Option α} {mismatch : Mismatch}
    {read : Bytes → Json.Reading (α × Bytes)} {IsSaid : Raw → α → Prop} {put : α → Partial}
    (hread : ∀ {bs a rest},
      read bs = .ok (a, rest) ↔ ∃ v, Spelled (skipBlanks bs) v rest ∧ IsSaid v a) :
    (if before.isSome then .error (.mismatch mismatch)
      else readColon bs >>= fun bs => read bs >>= fun x => .ok (put x.1, x.2)) =
        Except.ok (p', rest) ↔
      ∃ a v, readColon bs = .ok a ∧ Spelled (skipBlanks a) v rest ∧
        before = none ∧ ∃ s, IsSaid v s ∧ p' = put s := by
  cases before with
  | some s => simp
  | none =>
    simp only [Option.isSome_none, Bool.false_eq_true, if_false, bind_eq_ok_iff, Prod.exists,
      hread, Except.ok.injEq, Prod.mk.injEq]
    constructor
    · rintro ⟨a, hcolon, s, rest', ⟨v, hv, hsaid⟩, rfl, rfl⟩
      exact ⟨a, v, hcolon, hv, trivial, s, hsaid, rfl⟩
    · rintro ⟨a, v, hcolon, hv, -, s, hsaid, rfl⟩
      exact ⟨a, hcolon, s, rest, ⟨v, hv, hsaid⟩, rfl, rfl⟩

/-- A field is read from its colon on, whatever stands there if it is unknown. -/
theorem exists_of_readField {name : String} (h : readField p name bs = .ok (p', rest)) :
    ∃ a v, readColon bs = .ok a ∧ Spelled (skipBlanks a) v rest ∧ p.Adds (name, v) p' := by
  simp only [Partial.Adds]
  rcases hf : Field.ofName? name with _ | _ | _
  · simp only [readField, hf] at h
    obtain ⟨a, hcolon, h⟩ := bind_eq_ok_iff.1 h
    obtain ⟨rest', hskip, h⟩ := bind_eq_ok_iff.1 h
    cases h
    obtain ⟨v, hv⟩ := exists_spelled_of_skipValue hskip
    exact ⟨a, v, hcolon, hv, rfl⟩
  · simp only [readField, hf] at h
    exact (readOnce_eq_ok_iff Scope.read_eq_ok_iff).1 h
  · simp only [readField, hf] at h
    exact (readOnce_eq_ok_iff ManifestSource.read_eq_ok_iff).1 h

theorem readField_eq {name : String} {a : Bytes} {v : Raw} (hcolon : readColon bs = .ok a)
    (hv : Spelled (skipBlanks a) v rest) (hadds : p.Adds (name, v) p') (hf : Follows rest) :
    readField p name bs = .ok (p', rest) := by
  simp only [Partial.Adds] at hadds
  rcases hfield : Field.ofName? name with _ | _ | _
  · simp only [hfield] at hadds
    have hskip := hv.skipValue_eq (blanks_skipBlanks a) hf
    simp only [readField, hfield, hadds]
    exact bind_eq_ok_iff.2 ⟨a, hcolon, bind_eq_ok_iff.2 ⟨rest, hskip, rfl⟩⟩
  · simp only [hfield] at hadds
    simp only [readField, hfield]
    exact (readOnce_eq_ok_iff Scope.read_eq_ok_iff).2 ⟨a, v, hcolon, hv, hadds⟩
  · simp only [hfield] at hadds
    simp only [readField, hfield]
    exact (readOnce_eq_ok_iff ManifestSource.read_eq_ok_iff).2 ⟨a, v, hcolon, hv, hadds⟩

theorem advances_readField :
    Advances (byte '\x7d') (readNamed readField)
      (fun bs (f : String × Raw) rest => RawMember Spelled bs (some f.1, f.2) rest)
      Partial.Adds where
  sound {p b t p' rest} _ h := by
    obtain ⟨name, a, hname, h⟩ := readNamed_eq_ok_iff.1 h
    obtain ⟨a', v, hcolon, hv, hadds⟩ := exists_of_readField h
    exact ⟨(name, v), rawMember_iff.2 ⟨a, a', hname, hcolon, hv⟩, hadds⟩
  complete {p p' bs f rest} h hadds hf := by
    obtain ⟨a, a', hname, hcolon, hv⟩ := rawMember_iff.1 h
    exact readNamed_eq_ok_iff.2 ⟨f.1, a, hname, readField_eq hcolon hv hadds hf⟩
  begins h := h.begins
  length_lt h := h.length_lt Spelled.length_lt

/-- What one of the two fields comes to: it is left as it was, or it is given once. -/
inductive Filled {α : Type} (IsSaid : Raw → α → Prop) : List Raw → Option α → Option α → Prop
  /-- It is not given. -/
  | left (a : Option α) : Filled IsSaid [] a a
  /-- It is given, for the first time. -/
  | given {v : Raw} {a : α} (h : IsSaid v a) : Filled IsSaid [v] none (some a)

theorem filled_cons_iff {α : Type} {IsSaid : Raw → α → Prop} {v : Raw} {vs : List Raw}
    {a a' : Option α} :
    Filled IsSaid (v :: vs) a a' ↔
      a = none ∧ ∃ s, IsSaid v s ∧ Filled IsSaid vs (some s) a' := by
  constructor
  · intro h
    cases h with
    | given h => exact ⟨rfl, _, h, .left _⟩
  · rintro ⟨rfl, s, h, hvs⟩
    cases hvs with
    | left => exact .given h

theorem steps_cons_iff {f : String × Raw} :
    Steps Partial.Adds p (f :: fs) p' ↔ ∃ p₁, p.Adds f p₁ ∧ Steps Partial.Adds p₁ fs p' := by
  constructor
  · intro h
    cases h with
    | cons h hs => exact ⟨_, h, hs⟩
  · rintro ⟨p₁, h, hs⟩
    exact .cons h hs

theorem Field.values_cons (field : Field) (f : String × Raw) (fs : List (String × Raw)) :
    field.values (f :: fs) =
      if Field.ofName? f.1 = some field then f.2 :: field.values fs else field.values fs := by
  by_cases h : Field.ofName? f.1 = some field <;> simp [Field.values, h]

/-- **The fields are read apart**: each of the two is filled by its own values, in whatever
order they come. -/
theorem steps_adds_iff :
    Steps Partial.Adds p fs p' ↔
      Filled (fun v (s : Scope) => s.IsSaid v) (Field.scope.values fs) p.scope p'.scope ∧
      Filled (fun v (s : ManifestSource) => s.IsSaid v) (Field.source.values fs) p.source
        p'.source := by
  induction fs generalizing p with
  | nil =>
    constructor
    · intro h
      cases h
      exact ⟨.left _, .left _⟩
    · obtain ⟨scope, source⟩ := p
      obtain ⟨scope', source'⟩ := p'
      rintro ⟨hscope, hsource⟩
      cases hscope
      cases hsource
      exact .nil _
  | cons f fs ih =>
    rw [steps_cons_iff, Field.values_cons, Field.values_cons]
    simp only [ih, Partial.Adds]
    rcases Field.ofName? f.1 with _ | _ | _
    · simp
    · simp only [reduceCtorEq, if_false, if_true, Option.some.injEq, filled_cons_iff]
      constructor
      · rintro ⟨_, ⟨hnone, s, hsaid, rfl⟩, hscope, hsource⟩
        exact ⟨⟨hnone, s, hsaid, hscope⟩, hsource⟩
      · rintro ⟨⟨hnone, s, hsaid, hscope⟩, hsource⟩
        exact ⟨_, ⟨hnone, s, hsaid, rfl⟩, hscope, hsource⟩
    · simp only [reduceCtorEq, if_false, if_true, Option.some.injEq, filled_cons_iff]
      constructor
      · rintro ⟨_, ⟨hnone, s, hsaid, rfl⟩, hscope, hsource⟩
        exact ⟨hscope, hnone, s, hsaid, hsource⟩
      · rintro ⟨hscope, hnone, s, hsaid, hsource⟩
        exact ⟨_, ⟨hnone, s, hsaid, rfl⟩, hscope, hsource⟩

theorem complete_eq_ok_iff :
    p.complete = .ok s ↔ p.source = some s.source ∧ s.scope = p.scope.getD Scope.standard := by
  obtain ⟨scope, _ | source⟩ := p
  · simp [Partial.complete]
  · obtain ⟨scope', source'⟩ := s
    simp [Partial.complete, eq_comm, and_comm]

theorem filled_none_iff {α : Type} {IsSaid : Raw → α → Prop} {vs : List Raw} {a : α} :
    Filled IsSaid vs none (some a) ↔ ∃ v, vs = [v] ∧ IsSaid v a := by
  constructor
  · intro h
    cases h with
    | given h => exact ⟨_, rfl, h⟩
  · rintro ⟨v, rfl, h⟩
    exact .given h

/-- **Fields say settings** if they lead to them. -/
theorem isSaid_iff :
    IsSaid fs s ↔ ∃ p, Steps Partial.Adds Partial.empty fs p ∧ p.complete = .ok s := by
  simp only [steps_adds_iff, complete_eq_ok_iff]
  constructor
  · rintro ⟨hsource, hscope⟩
    have hsource := filled_none_iff.2 hsource
    rcases hscope with ⟨hnone, hstandard⟩ | hsome
    · refine ⟨⟨none, some s.source⟩, ⟨?_, hsource⟩, rfl, hstandard⟩
      rw [hnone]
      exact .left none
    · exact ⟨⟨some s.scope, some s.source⟩, ⟨filled_none_iff.2 hsome, hsource⟩, rfl, rfl⟩
  · rintro ⟨⟨scope, source⟩, ⟨hscope, hsource⟩, rfl, hs⟩
    refine ⟨filled_none_iff.1 hsource, ?_⟩
    rcases scope with _ | scope
    · refine .inl ⟨?_, hs⟩
      generalize Field.scope.values fs = vs at hscope
      cases hscope with
      | left => rfl
    · obtain rfl : s.scope = scope := hs
      exact .inr (filled_none_iff.1 hscope)

theorem readFields_eq_ok_iff :
    readFields bs = .ok (s, rest) ↔
      ∃ fs, Series (byte '\x7d')
        (fun bs (f : String × Raw) rest => RawMember Spelled bs (some f.1, f.2) rest) true bs fs
          rest ∧ IsSaid fs s := by
  have hloop {p : Partial} {rest : Bytes} :
      readObject readField Partial.empty bs = .ok (p, rest) ↔ _ :=
    (loop_readMembers readField).eq_ok_iff_steps advances_readField (.inr rfl)
  have hchecked {p : Partial} {s' : Settings} :
      checked p.complete = .ok s' ↔ p.complete = .ok s' := by
    cases p.complete <;> simp [checked]
  simp only [readFields, isSaid_iff, bind_eq_ok_iff, Prod.exists, hloop, hchecked]
  constructor
  · rintro ⟨p, rest', ⟨fs, hfs, hsteps⟩, s', hs', h⟩
    cases h
    exact ⟨fs, hfs, p, hsteps, hs'⟩
  · rintro ⟨fs, hfs, p, hsteps, hs⟩
    exact ⟨p, rest, ⟨fs, hfs, hsteps⟩, s, hs, rfl⟩

/-- Two items, as they are read one after the other. -/
theorem readPositions_eq_ok_iff :
    readPositions bs = .ok (s, rest) ↔
      ∃ v w, Series (byte ']') Spelled true bs [v, w] rest ∧ s.scope.IsSaid v ∧
        s.source.IsSaid w := by
  constructor
  · intro h
    obtain ⟨_ | bs₁, hfirst, h⟩ := bind_eq_ok_iff.1 h
    · cases h
    obtain ⟨⟨scope, bs₂⟩, hscope, h⟩ := bind_eq_ok_iff.1 h
    obtain ⟨_ | bs₃, hsecond, h⟩ := bind_eq_ok_iff.1 h
    · cases h
    obtain ⟨⟨source, bs₄⟩, hsource, h⟩ := bind_eq_ok_iff.1 h
    obtain ⟨rest', hclose, h⟩ := bind_eq_ok_iff.1 h
    cases h
    obtain ⟨b, t, rfl, hopens, hb, -⟩ := exists_of_nextItem? hfirst
    obtain ⟨b', t', rfl, hopens', hb', -⟩ := exists_of_nextItem? hsecond
    obtain ⟨v, hv, hsaid⟩ := Scope.read_eq_ok_iff.1 hscope
    obtain ⟨w, hw, hsaid'⟩ := ManifestSource.read_eq_ok_iff.1 hsource
    rw [skipBlanks_cons hb] at hv
    rw [skipBlanks_cons hb'] at hw
    rw [closeArray_eq, readMark_eq_ok_iff (by decide)] at hclose
    exact ⟨v, w, .item hopens hv (.item hopens' hw (.close hclose)), hsaid, hsaid'⟩
  · rintro ⟨v, w, hitems, hsaid, hsaid'⟩
    cases hitems with
    | item hopens hv hitems =>
    cases hitems with
    | item hopens' hw hitems =>
    cases hitems with
    | close hclose =>
    obtain ⟨b, t, rfl, hb, hne, -⟩ := hv.begins
    obtain ⟨b', t', rfl, hb', hne', -⟩ := hw.begins
    rw [← skipBlanks_cons hb t] at hv
    rw [← skipBlanks_cons hb' t'] at hw
    rw [← readMark_eq_ok_iff (by decide), ← closeArray_eq] at hclose
    exact bind_eq_ok_iff.2 ⟨_, nextItem?_of_opens hopens hb hne,
      bind_eq_ok_iff.2 ⟨_, Scope.read_eq_ok_iff.2 ⟨v, hv, hsaid⟩,
      bind_eq_ok_iff.2 ⟨_, nextItem?_of_opens hopens' hb' hne',
      bind_eq_ok_iff.2 ⟨_, ManifestSource.read_eq_ok_iff.2 ⟨w, hw, hsaid'⟩,
      bind_eq_ok_iff.2 ⟨rest, hclose, rfl⟩⟩⟩⟩⟩

end Reading

/-! ### Documents -/

/-- **What a document says**: an object says what its fields say, and an array of two what
an object with these two fields would say. -/
inductive Says : Raw → Settings → Prop
  /-- An object. -/
  | fields {fs : List (String × Raw)} {s : Settings} (h : IsSaid fs s) :
      Says (.ofMembers fs) s
  /-- An array of two. -/
  | positions {v w : Raw} {s : Settings} (h : IsSaid [("search", v), ("pathMap", w)] s) :
      Says (.array [v, w]) s

theorem isSaid_pair_iff {v w : Raw} {s : Settings} :
    IsSaid [("search", v), ("pathMap", w)] s ↔ s.scope.IsSaid v ∧ s.source.IsSaid w := by
  have hscope : Field.scope.values [("search", v), ("pathMap", w)] = [v] := rfl
  have hsource : Field.source.values [("search", v), ("pathMap", w)] = [w] := rfl
  constructor
  · rintro ⟨⟨w', hw', hw⟩, hv⟩
    rw [hsource] at hw'
    rw [hscope] at hv
    rcases hv with ⟨hv, -⟩ | ⟨v', hv', hv⟩
    · cases hv
    · cases hv'
      cases hw'
      exact ⟨hv, hw⟩
  · rintro ⟨hv, hw⟩
    exact ⟨⟨w, hsource, hw⟩, .inr ⟨v, hscope, hv⟩⟩

variable {bs rest : Bytes} {s : Settings}

theorem readJson_eq_ok_iff :
    readJson bs = .ok (s, rest) ↔ ∃ v, Spelled (skipBlanks bs) v rest ∧ Says v s := by
  constructor
  · intro h
    rcases hs : skipBlanks bs with _ | ⟨b, t⟩
    · simp [readJson, hs] at h
    simp only [readJson, hs] at h
    split at h
    · next hb =>
      obtain ⟨fs, hfs, hsaid⟩ := readFields_eq_ok_iff.1 h
      refine ⟨.ofMembers fs, ?_, .fields hsaid⟩
      rw [← List.map_id fs, hb]
      exact spelled_ofMembers_iff.2 ⟨t, rfl, hfs⟩
    · split at h
      · next hb =>
        obtain ⟨v, w, hitems, hv, hw⟩ := readPositions_eq_ok_iff.1 h
        exact ⟨.array [v, w], spelled_iff.2 ⟨t, by rw [hb], hitems⟩,
          .positions (isSaid_pair_iff.2 ⟨hv, hw⟩)⟩
      · cases h
  · rintro ⟨v, hv, hsays⟩
    cases hsays with
    | @fields fs _ hsaid =>
      rw [← List.map_id fs] at hv
      obtain ⟨t, hs, hfs⟩ := spelled_ofMembers_iff.1 hv
      simp only [readJson, hs, if_true]
      exact readFields_eq_ok_iff.2 ⟨fs, hfs, hsaid⟩
    | @positions v w _ hsaid =>
      obtain ⟨t, hs, hitems⟩ := spelled_iff.1 hv
      have hne : byte '[' ≠ byte '\x7b' := by decide
      simp only [readJson, hs, hne, if_false, if_true]
      exact readPositions_eq_ok_iff.2 ⟨v, w, hitems, isSaid_pair_iff.1 hsaid⟩

theorem decodeJson_eq_ok_iff {text : String} :
    decodeJson text = .ok s ↔ ∃ v, v.Document (Text.encode text) ∧ Says v s :=
  readAll_eq_ok_iff_document readJson_eq_ok_iff

theorem validated_eq_ok_iff {s' : Settings} :
    s'.validated = .ok s ↔ s' = s ∧ s.scope.HasNames := by
  rw [← Scope.flaw?_eq_none_iff, validated, validate]
  rcases hflaw : s'.scope.flaw? with _ | flaw
  · simp only [bind, Except.bind, Except.ok.injEq]
    exact ⟨fun h => ⟨h, h ▸ hflaw⟩, fun h => h.1⟩
  · simp only [bind, Except.bind, reduceCtorEq, false_iff]
    rintro ⟨rfl, hnone⟩
    rw [hflaw] at hnone
    cases hnone

theorem exists_of_parseJson {path : FilePath} {text : String} :
    parseJson path text = .ok s ↔
      ∃ v, v.Document (Text.encode text) ∧ Says v s ∧ s.scope.HasNames := by
  have hsays : decodeJson text = .ok s ∧ s.scope.HasNames ↔ _ :=
    and_congr_left' decodeJson_eq_ok_iff
  simp only [← and_assoc, exists_and_right]
  rw [← hsays, parseJson]
  cases decodeJson text with
  | error fault => simp
  | ok s' => simp only [validated_eq_ok_iff, Except.ok.injEq]

theorem says_ofMembers_iff {fs : List (String × Raw)} : Says (.ofMembers fs) s ↔ IsSaid fs s := by
  constructor
  · intro h
    generalize hv : Raw.ofMembers fs = v at h
    cases h with
    | @fields fs' _ h =>
      have hinj : Function.Injective fun m : String × Raw => (some m.1, m.2) := by
        rintro ⟨n, v⟩ ⟨n', v'⟩ h
        cases h
        rfl
      rwa [List.map_injective_iff.2 hinj (Raw.object.inj hv)]
    | positions => cases hv
  · exact .fields

theorem says_array_iff {vs : List Raw} :
    Says (.array vs) s ↔ ∃ v w, vs = [v, w] ∧ IsSaid [("search", v), ("pathMap", w)] s := by
  constructor
  · intro h
    generalize hv : Raw.array vs = v at h
    cases h with
    | fields => cases hv
    | positions h =>
      obtain rfl := Raw.array.inj hv
      exact ⟨_, _, rfl, h⟩
  · rintro ⟨v, w, rfl, h⟩
    exact .positions h

/-- Only the values of the two fields matter, and not their order. -/
theorem isSaid_congr {fs fs' : List (String × Raw)}
    (h : ∀ field : Field, (field.values fs).Perm (field.values fs')) :
    IsSaid fs s ↔ IsSaid fs' s := by
  have hone (field : Field) (v : Raw) : field.values fs = [v] ↔ field.values fs' = [v] := by
    constructor
    · intro hv
      exact List.perm_singleton.1 (hv ▸ h field).symm
    · intro hv
      exact List.perm_singleton.1 (hv ▸ h field)
  have hnil : Field.scope.values fs = [] ↔ Field.scope.values fs' = [] := by
    constructor
    · intro hv
      exact List.perm_nil.1 (hv ▸ h .scope).symm
    · intro hv
      exact List.perm_nil.1 (hv ▸ h .scope)
  constructor
  · rintro ⟨hsource, hscope⟩
    simp only [hone, hnil] at hsource hscope
    exact ⟨hsource, hscope⟩
  · rintro ⟨hsource, hscope⟩
    simp only [← hone, ← hnil] at hsource hscope
    exact ⟨hsource, hscope⟩

/-- The fields whose names mean something. -/
def known (fs : List (String × Raw)) : List (String × Raw) :=
  fs.filter fun f => (Field.ofName? f.1).isSome

theorem values_known (field : Field) (fs : List (String × Raw)) :
    field.values (known fs) = field.values fs := by
  rw [Field.values, known, List.filter_filter, Field.values]
  congr 1
  refine List.filter_congr fun f _ => ?_
  by_cases h : Field.ofName? f.1 = some field <;> simp [h]

/-- **The settings that are accepted.** For every text:

* if it is an object, with any fields in any order and any of them given more than once,
  it is accepted as the settings that the fields say, if no name of their scope is blank,
  and otherwise not at all;
* objects whose known fields are the same up to their order are accepted alike, whatever
  else is in them;
* if it is an array, it has to have two items, and is accepted as an object with these
  fields would be;
* if it is anything else, it is not accepted. -/
theorem parseJson_eq_ok_iff (path : FilePath) (text : String) :
    (∀ fs, (Raw.ofMembers fs).Document (Text.encode text) → ∀ s,
      parseJson path text = .ok s ↔ IsSaid fs s ∧ s.scope.HasNames) ∧
    (∀ fs fs' path' text', (Raw.ofMembers fs).Document (Text.encode text) →
      (Raw.ofMembers fs').Document (Text.encode text') → (known fs).Perm (known fs') → ∀ s,
        parseJson path text = .ok s ↔ parseJson path' text' = .ok s) ∧
    (∀ vs, (Raw.array vs).Document (Text.encode text) → ∀ s,
      parseJson path text = .ok s ↔ ∃ v w, vs = [v, w] ∧
        IsSaid [("search", v), ("pathMap", w)] s ∧ s.scope.HasNames) ∧
    ∀ s, parseJson path text = .ok s → (∃ fs, (Raw.ofMembers fs).Document (Text.encode text)) ∨
      ∃ v w, (Raw.array [v, w]).Document (Text.encode text) := by
  have hdocument (path : FilePath) (text : String) {v : Raw} (h : v.Document (Text.encode text))
      (s : Settings) : parseJson path text = .ok s ↔ Says v s ∧ s.scope.HasNames := by
    rw [exists_of_parseJson]
    constructor
    · rintro ⟨v', h', hsays⟩
      obtain rfl := h.unique h'
      exact hsays
    · exact fun hsays => ⟨v, h, hsays⟩
  refine ⟨fun fs h s => ?_, fun fs fs' path' text' h h' hperm s => ?_, fun vs h s => ?_, ?_⟩
  · rw [hdocument path text h, says_ofMembers_iff]
  · have hvalues (field : Field) : (field.values fs).Perm (field.values fs') := by
      rw [← values_known field fs, ← values_known field fs']
      exact (hperm.filter _).map _
    rw [hdocument path text h, hdocument path' text' h', says_ofMembers_iff,
      says_ofMembers_iff, isSaid_congr hvalues]
  · rw [hdocument path text h, says_array_iff]
    simp only [exists_and_right, ← and_assoc]
  · intro s hs
    obtain ⟨v, h, hsays, -⟩ := exists_of_parseJson.1 hs
    cases hsays with
    | @fields fs => exact .inl ⟨fs, h⟩
    | @positions v w => exact .inr ⟨v, w, h⟩

/-- The least there can be: a source in a file. -/
def least : String := "\x7b\"pathMap\":\"m.json\"\x7d"

/-- The same behind a field that means nothing, with a number that is out of range. -/
def crowded : String := "\x7b\"x\":1e999,\"pathMap\":\"m.json\"\x7d"

/-- The field that means nothing can be there or not. -/
theorem parseJson_eq_ok_iff_crowded :
    ∃ fs fs' s, (Raw.ofMembers fs).Document (Text.encode least) ∧
      (Raw.ofMembers fs').Document (Text.encode crowded) ∧ (known fs).Perm (known fs') ∧
      parseJson "least.json" least = .ok s ∧ parseJson "crowded.json" crowded = .ok s := by
  have hsource : RawMember Spelled (Text.encode "\"pathMap\":\"m.json\"\x7d")
      (some "pathMap", .ofText "m.json") (Text.encode "\x7d") :=
    rawMember_iff.2 ⟨Text.encode ":\"m.json\"\x7d", Text.encode "\"m.json\"\x7d", by decide,
      by decide, readString_eq_ok_iff.1 (show readString .string _ = _ by decide)⟩
  have hlarge : RawMember Spelled (Text.encode "\"x\":1e999,\"pathMap\":\"m.json\"\x7d")
      (some "x", .number ⟨false, [1], none, some (false, [9, 9, 9])⟩)
      (Text.encode ",\"pathMap\":\"m.json\"\x7d") :=
    rawMember_iff.2 ⟨Text.encode ":1e999,\"pathMap\":\"m.json\"\x7d",
      Text.encode "1e999,\"pathMap\":\"m.json\"\x7d", by decide, by decide,
      spelled_iff.2 (written_of_readLiteral (show readLiteral _ = _ by decide))⟩
  -- the brackets and the comma are taken off one by one, so that no text is computed twice
  have hclose : Text.encode "\x7d" = [byte '\x7d'] := by decide
  have hcomma : Text.encode ",\"pathMap\":\"m.json\"\x7d" =
      byte ',' :: Text.encode "\"pathMap\":\"m.json\"\x7d" := by decide
  have hleast : Text.encode least =
      byte '\x7b' :: Text.encode "\"pathMap\":\"m.json\"\x7d" := by decide
  have hcrowd : Text.encode crowded =
      byte '\x7b' :: Text.encode "\"x\":1e999,\"pathMap\":\"m.json\"\x7d" := by decide
  have hend : Series (byte '\x7d') (RawMember Spelled) false (Text.encode "\x7d") [] [] := by
    rw [hclose]
    exact .close (.none _)
  have hopens : Opens false (Text.encode ",\"pathMap\":\"m.json\"\x7d")
      (Text.encode "\"pathMap\":\"m.json\"\x7d") := by
    rw [hcomma]
    exact ⟨_, .none _, .none _⟩
  have h : (Raw.ofMembers [("pathMap", .ofText "m.json")]).Document (Text.encode least) := by
    rw [hleast]
    exact ⟨_, [], .none _, spelled_iff.2 ⟨_, rfl, .item (.none _) hsource hend⟩, .none []⟩
  have h' : (Raw.ofMembers [("x", .number ⟨false, [1], none, some (false, [9, 9, 9])⟩),
      ("pathMap", .ofText "m.json")]).Document (Text.encode crowded) := by
    rw [hcrowd]
    exact ⟨_, [], .none _, spelled_iff.2
      ⟨_, rfl, .item (.none _) hlarge (.item hopens hsource hend)⟩, .none []⟩
  have hread : parseJson "least.json" least = .ok ⟨Scope.standard, .file "m.json"⟩ := by decide
  have hcrowded := (parseJson_eq_ok_iff "least.json" least).2.1 _ _ "crowded.json" crowded h h'
    (.refl _) ⟨Scope.standard, .file "m.json"⟩
  exact ⟨_, _, _, h, h', .refl _, hread, hcrowded.1 hread⟩

end Settings

end Relink
