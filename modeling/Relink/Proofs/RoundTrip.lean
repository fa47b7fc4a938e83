import Relink.Proofs.ScopeHistory
import Relink.Proofs.SettingsToml

/-!
# Written down and read back

Manifests and settings are written down in JSON, and settings in TOML as well, in more than
one way: a removal is `null` or `false` in JSON, a character may be escaped or not, and there
may be blanks. Whichever way it is, reading undoes writing
(`Relink.Settings.parse_written`), and the entries of a manifest come back in their order.

What counts as writing is said by what is to be written, without any reader: an object with
certain members (`Relink.Manifest.InJson`, `Relink.Settings.InJson`), or lines that make
certain tables (`Relink.Settings.InToml`). So that this is not about nothing, there is a
writer for each of the formats. The only settings that they cannot write, and that have no
writing at all, are those with a path that is no text.

The tags of a scope have an order here, and they come back in it. It is of no consequence:
settings that differ in that order alone are read back as such
(`Relink.Settings.Reorders`).
-/

namespace Relink

/-! ### Manifests in JSON -/

namespace Manifest

open Json

variable {m : Manifest} {ms : List (String × Raw)} {content : Bytes}

/-- **The members that a manifest is written as**: its entries in order, a text for a
replacement and `null` or `false` for a removal. -/
structure IsMembers (m : Manifest) (ms : List (String × Raw)) : Prop where
  /-- There is nothing but replacements. -/
  replaces : ∀ e ∈ ms, e.2.IsReplacement
  /-- They are those of the manifest. -/
  entries : (ms.map fun e => (e.1, e.2.text?)) = m.entries

/-- **A manifest in JSON**: a document that is one object with these members. -/
def InJson (m : Manifest) (content : Bytes) : Prop :=
  ∃ ms, m.IsMembers ms ∧ (Raw.ofMembers ms).Document content

theorem IsMembers.ofList_eq (h : m.IsMembers ms) :
    Table.ofList (ms.map fun e => (e.1, e.2.text?)) = m := by
  rw [h.entries, Table.ofList_entries]

theorem InJson.parseInline_eq (h : m.InJson content) : parseInline content = .ok m := by
  obtain ⟨ms, hms, mid, rest, hmid, hspelled, hrest⟩ := h
  rw [← List.map_id ms] at hspelled
  obtain ⟨t, rfl, hseries⟩ := spelled_ofMembers_iff.1 hspelled
  have hread : readAll (readObjectAs .inlineManifest (readInlineMember (depthLimit - 1))
      Table.empty) content = .ok m ↔ _ :=
    readAll_readObjectAs_eq_ok_iff (ManifestSource.reads_inlineMember (depthLimit - 1))
  refine hread.2 ⟨ms, ⟨t, rest, hmid, series_and_iff.2 ⟨hseries, hms.replaces⟩, hrest⟩, ?_⟩
  rw [← hms.ofList_eq, Table.ofList, List.foldl_map]

/-- A file holds the manifest that a document would. -/
theorem InJson.value_parse_eq (h : m.InJson content) (path : FilePath) :
    (parse path content).value = .ok m := by
  obtain ⟨ms, hms, hreplaces, rfl⟩ := parseInline_eq_ok_iff.1 h.parseInline_eq
  rw [value_parse_of_document hms, foldlM_addMember_of_isReplacement hreplaces]

/-- What is done to the attribute of a path, as a value; `removal` tells whether a removal
is to be `null`. -/
def replacementJson (removal : String → Bool) (e : String × Option String) : Json :=
  match e.2 with
  | some s => .string s
  | none => if removal e.1 then .null else .boolean false

/-- A manifest as a value. -/
def toJson (removal : String → Bool) (m : Manifest) : Json :=
  .object (m.entries.map fun e => (e.1, replacementJson removal e))

/-- What the value of an entry is in writing. -/
def replacementRaw (removal : String → Bool) (e : String × Option String) : Raw :=
  match e.2 with
  | some s => .ofText s
  | none => if removal e.1 then .null else .boolean false

theorem prints_replacement (removal : String → Bool) (e : String × Option String) :
    Prints (replacementJson removal e) (replacementRaw removal e) := by
  obtain ⟨k, _ | s⟩ := e
  · rcases hr : removal k with _ | _
    · simpa [replacementJson, replacementRaw, hr] using prints_no
    · simpa [replacementJson, replacementRaw, hr] using prints_null
  · exact prints_string s

theorem isMembers_replacementRaw (removal : String → Bool) (m : Manifest) :
    m.IsMembers (m.entries.map fun e => (e.1, replacementRaw removal e)) where
  replaces := by
    intro e he
    obtain ⟨⟨k, r⟩, -, rfl⟩ := List.mem_map.1 he
    rcases r with _ | s
    · rcases hr : removal k with _ | _
      · exact .inr (.inr (by simp [replacementRaw, hr]))
      · exact .inr (.inl (by simp [replacementRaw, hr]))
    · exact .inl ⟨s, rfl⟩
  entries := by
    rw [List.map_map]
    refine (List.map_congr_left fun e _ => ?_).trans (List.map_id m.entries)
    obtain ⟨k, _ | s⟩ := e
    · rcases hr : removal k with _ | _ <;> simp [replacementRaw, hr, Raw.text?]
    · rfl

theorem prints_toJson (removal : String → Bool) (m : Manifest) :
    Prints (m.toJson removal)
      (.ofMembers (m.entries.map fun e => (e.1, replacementRaw removal e))) :=
  prints_object fun e _ => prints_replacement removal e

theorem inJson_toBytes (removal : String → Bool) (m : Manifest) :
    m.InJson (m.toJson removal).toBytes :=
  ⟨_, isMembers_replacementRaw removal m, (prints_toJson removal m).document.1⟩

end Manifest

/-! ### Settings in JSON -/

namespace Scope

open Json

/-- A scope in writing. -/
def raw (s : Scope) : Raw := .ofMembers (s.table.entries.map fun e => (e.1, .ofNames e.2))

/-- A scope as a value. -/
def toJson (s : Scope) : Json :=
  .object (s.table.entries.map fun e => (e.1, .array (e.2.map .string)))

theorem isSaid_raw (s : Scope) : IsSaid s.raw s := ⟨s.table.entries, rfl, s.ofList_entries.symm⟩

theorem prints_toJson (s : Scope) : Prints s.toJson s.raw :=
  prints_object fun _ _ => prints_array fun n _ => prints_string n

end Scope

namespace ManifestSource

open Json

/-- **What a source is written as**: the path of a file as a text, a manifest as an object. -/
inductive IsRaw : ManifestSource → Raw → Prop
  /-- The path of a file. -/
  | file (path : String) : IsRaw (.file path) (.ofText path)
  /-- A manifest. -/
  | inline {m : Manifest} {ms : List (String × Raw)} (h : m.IsMembers ms) :
      IsRaw (.inline m) (.ofMembers ms)

/-- The source can be written down: the path of a file has to be a text for that. -/
def IsTextual : ManifestSource → Prop
  | .inline _ => True
  | .file path => path.IsText

theorem IsRaw.isTextual {s : ManifestSource} {w : Raw} (h : s.IsRaw w) : s.IsTextual := by
  cases h with
  | file path => exact ⟨path, rfl⟩
  | inline h => exact trivial

theorem IsRaw.isSaid {s : ManifestSource} {w : Raw} (h : s.IsRaw w) : IsSaid w s := by
  cases h with
  | file path => exact .file path
  | inline h =>
    have hsaid := IsSaid.inline h.replaces
    rwa [h.ofList_eq] at hsaid

/-- A source as a value. -/
def toJson (removal : String → Bool) : ManifestSource → Json
  | .file path => .string path.display
  | .inline m => m.toJson removal

theorem exists_prints_toJson (removal : String → Bool) {s : ManifestSource} (h : s.IsTextual) :
    ∃ w, s.IsRaw w ∧ Prints (s.toJson removal) w := by
  cases s with
  | file path =>
    obtain ⟨path, rfl⟩ := h
    exact ⟨_, .file path, by simpa [toJson] using prints_string path⟩
  | inline m =>
    exact ⟨_, .inline (Manifest.isMembers_replacementRaw removal m), m.prints_toJson removal⟩

end ManifestSource

namespace Settings

open Json

variable {s : Settings} {text : String}

/-- **Settings in JSON**: a document that is one object with the two fields, in either
order. -/
def InJson (s : Settings) (text : String) : Prop :=
  ∃ w fs, s.source.IsRaw w ∧ fs.Perm [("search", s.scope.raw), ("pathMap", w)] ∧
    (Raw.ofMembers fs).Document (Text.encode text)

theorem InJson.parseJson_eq (h : s.InJson text) (hs : s.scope.HasNames) (path : FilePath) :
    parseJson path text = .ok s := by
  obtain ⟨w, fs, hw, hfs, hdocument⟩ := h
  have hsaid : IsSaid fs s :=
    (isSaid_congr fun field => (hfs.filter _).map _).2
      (isSaid_pair_iff.2 ⟨s.scope.isSaid_raw, hw.isSaid⟩)
  exact exists_of_parseJson.2 ⟨_, hdocument, says_ofMembers_iff.2 hsaid, hs⟩

/-- Settings that are written down in JSON name no path but a text. -/
theorem InJson.isTextual (h : s.InJson text) : s.source.IsTextual := by
  obtain ⟨w, fs, hw, -⟩ := h
  exact hw.isTextual

/-- Settings as a value. -/
def toJson (removal : String → Bool) (s : Settings) : Json :=
  .object [("search", s.scope.toJson), ("pathMap", s.source.toJson removal)]

theorem exists_inJson (s : Settings) (removal : String → Bool) (hs : s.source.IsTextual) :
    ∃ text, Text.encode text = (s.toJson removal).toBytes ∧ s.InJson text := by
  obtain ⟨w, hw, hprints⟩ := ManifestSource.exists_prints_toJson removal hs
  have hfields : ∀ f ∈ [("search", s.scope.toJson, s.scope.raw),
      ("pathMap", s.source.toJson removal, w)], Prints f.2.1 f.2.2 := by
    simp [s.scope.prints_toJson, hprints]
  have hobject : Prints (s.toJson removal)
      (.ofMembers [("search", s.scope.raw), ("pathMap", w)]) :=
    @prints_object (String × Json × Raw) (fun f => f.2.1) (fun f => f.2.2) Prod.fst _ hfields
  obtain ⟨hdocument, text, htext⟩ := hobject.document
  exact ⟨text, htext, w, _, hw, .refl _, htext ▸ hdocument⟩

end Settings

/-! ### Writing TOML -/

namespace Toml

/-- A character of a basic string, escaped if it has to be. -/
def quoteChar (c : Char) : List Char :=
  if c = '"' ∨ c = '\\' then ['\\', c]
  else if isOrdinary c then [c]
  else ['\\', 'u', '0', '0', Nat.digitChar (c.toNat / 16), Nat.digitChar (c.toNat % 16)]

/-- A basic string. -/
def quote (s : String) : List Char := '"' :: s.toList.flatMap quoteChar ++ ['"']

/-- The strings of a list that come after one, and its end. -/
def writeNamesAfter : List String → List Char
  | [] => [']']
  | n :: ns => ',' :: ' ' :: (quote n ++ writeNamesAfter ns)

/-- A list of strings. -/
def writeNames : List String → List Char
  | [] => ['[', ']']
  | n :: ns => '[' :: (quote n ++ writeNamesAfter ns)

/-- What is done to an attribute. -/
def writeReplacement : Option String → List Char
  | some s => quote s
  | none => ['f', 'a', 'l', 's', 'e']

/-- A key with its value, on a line. -/
def writePair (k : String) (value : List Char) : List Char :=
  quote k ++ [' ', '=', ' '] ++ value ++ ['\n']

/-- A table: its header, and a line for each key. -/
def writeBlock {α : Type} (name : String) (write : α → List Char) (as : List (String × α)) :
    List Char :=
  '[' :: name.toList ++ [']', '\n'] ++ as.flatMap fun a => writePair a.1 (write a.2)

section Writing

variable {α : Type} {cs : List Char} {ss : List Statement} {v : Value}

theorem charOf?_toNat (c : Char) : charOf? c.toNat = some c := by
  have hvalid : c.toNat.isValidChar := c.valid
  simp [charOf?, hvalid]

/-- **A character is written so that it is read again.** -/
theorem piece_quoteChar (c : Char) : Piece (quoteChar c) c := by
  by_cases hmark : c = '"' ∨ c = '\\'
  · rw [quoteChar, if_pos hmark]
    rcases hmark with rfl | rfl
    · exact .escape rfl
    · exact .escape rfl
  rw [quoteChar, if_neg hmark]
  by_cases hordinary : isOrdinary c = true
  · rw [if_pos hordinary]
    exact .plain (not_or.1 hmark).1 (not_or.1 hmark).2 hordinary
  · -- the characters that are left have code points of two digits
    have hlt : c.toNat < 0x80 := by
      simp [isOrdinary] at hordinary
      omega
    have hdigits : ∀ n : Fin 0x80, hexValue? 0
        ['0', '0', Nat.digitChar (n.val / 16), Nat.digitChar (n.val % 16)] = some n.val := by
      decide
    rw [if_neg hordinary]
    exact .codePoint rfl rfl (hdigits ⟨c.toNat, hlt⟩) (charOf?_toNat c)

theorem isQuoted_quote (s : String) : IsQuoted (quote s) s := by
  refine ⟨_, rfl, ?_⟩
  induction s.toList with
  | nil => exact .nil
  | cons c cs ih => exact .cons (piece_quoteChar c) ih

theorem isGap_blank : IsGap [' '] := by simp [IsGap, isBlank]

theorem isNames_append {g : List Char} (hg : IsFiller g) (n : String) (ns : List String) :
    IsNames (g ++ (quote n ++ writeNamesAfter ns)) (n :: ns) := by
  induction ns generalizing g n with
  | nil => simpa [writeNamesAfter] using IsNames.last hg (isQuoted_quote n) isFiller_nil
  | cons m ns ih =>
    have h := IsNames.cons hg (isQuoted_quote n) isFiller_nil (ih isGap_blank.isFiller m)
    simpa [writeNamesAfter] using h

theorem isValue_writeNames (ns : List String) : IsValue (writeNames ns) (.ofNames ns) := by
  cases ns with
  | nil => exact .names (.close isFiller_nil)
  | cons n ns => exact .names (isNames_append isFiller_nil n ns)

theorem isValue_writeReplacement (r : Option String) :
    IsValue (writeReplacement r) (.ofReplacement r) := by
  cases r with
  | none => exact .no
  | some s => exact .text (isQuoted_quote s)

theorem lines_writePair (k : String) (hv : IsValue cs v) {rest : List Char}
    (h : Lines rest ss) : Lines (writePair k cs ++ rest) (.pair [k] v :: ss) := by
  have hline := Lines.cons isFiller_nil
    (.pair (.quoted (isQuoted_quote k)) isGap_blank isGap_blank hv) isGap_nil h
  simpa [writePair] using hline

/-- **A table is written as its lines.** -/
theorem lines_writeBlock (name : String) {write : α → List Char} {value : α → Value}
    (hname : name.toList ≠ []) (hbare : name.toList.all isBare = true)
    (hwrite : ∀ a, IsValue (write a) (value a)) (as : List (String × α)) (h : Lines cs ss) :
    Lines (writeBlock name write as ++ cs) (Statement.block name value as ++ ss) := by
  have hpairs : Lines ((as.flatMap fun a => writePair a.1 (write a.2)) ++ cs)
      ((as.map fun a => .pair [a.1] (value a.2)) ++ ss) := by
    induction as with
    | nil => exact h
    | cons a as ih =>
      have hpair := lines_writePair a.1 (hwrite a.2) ih
      simpa using hpair
  have hkey : IsKey name.toList (String.ofList name.toList) :=
    .bare hname (List.all_eq_true.1 hbare)
  have hline := Lines.cons isFiller_nil (.table isGap_nil hkey isGap_nil) isGap_nil hpairs
  simpa [writeBlock, Statement.block] using hline

end Writing

end Toml

/-! ### Settings in TOML -/

namespace Scope

open Toml

/-- A scope as a table. -/
def writeToml (s : Scope) : List Char := writeBlock "search" writeNames s.table.entries

end Scope

namespace Manifest

open Toml

/-- A manifest as a table. -/
def writeToml (m : Manifest) : List Char := writeBlock "pathMap" writeReplacement m.entries

end Manifest

namespace Settings

open Toml

variable {s s' : Settings} {text : String}

/-- **Settings in TOML**: a text in lines that make the tables of the settings. -/
def InToml (s : Settings) (text : String) : Prop :=
  ∃ ss, IsStatements s ss ∧ Lines text.toList ss

theorem InToml.parseToml_eq (h : s.InToml text) (hs : s.scope.HasNames) (path : FilePath) :
    parseToml path text = .ok s := by
  obtain ⟨ss, hss, hlines⟩ := h
  simp only [parseToml, hss.decodeToml_eq hlines]
  exact validated_eq_ok_iff.2 ⟨rfl, hs⟩

/-- Settings that are written down in TOML name no path but a text. -/
theorem InToml.isTextual (h : s.InToml text) : s.source.IsTextual := by
  obtain ⟨ss, hss, -⟩ := h
  cases hss with
  | file scope path => exact ⟨path, rfl⟩
  | scopeFirst scope m => exact trivial
  | manifestFirst scope m => exact trivial

/-- Settings as a text. -/
def toToml (s : Settings) : String :=
  String.ofList <|
    match s.source with
    | .file path => writePair "pathMap" (quote path.display) ++ s.scope.writeToml
    | .inline m => s.scope.writeToml ++ m.writeToml

theorem inToml_toToml (s : Settings) (hs : s.source.IsTextual) : s.InToml s.toToml := by
  have hscope {cs : List Char} {ss : List Statement} (h : Lines cs ss) :
      Lines (s.scope.writeToml ++ cs) (s.scope.statements ++ ss) :=
    lines_writeBlock "search" (by decide) (by decide) isValue_writeNames _ h
  have hmanifest (m : Manifest) : Lines m.writeToml m.statements := by
    have h := lines_writeBlock "pathMap" (by decide) (by decide) isValue_writeReplacement
      m.entries (.nil isFiller_nil)
    rwa [List.append_nil, List.append_nil] at h
  obtain ⟨scope, m | path⟩ := s
  · refine ⟨_, .scopeFirst scope m, ?_⟩
    simpa [toToml] using hscope (hmanifest m)
  · obtain ⟨path, rfl⟩ := hs
    refine ⟨_, .file scope path, ?_⟩
    have h := hscope (.nil isFiller_nil)
    rw [List.append_nil, List.append_nil] at h
    simpa [toToml] using lines_writePair "pathMap" (.text (isQuoted_quote path)) h

example : toToml ⟨Scope.standard, .file "m.json"⟩ =
    "\"pathMap\" = \"m.json\"\n[search]\n\"script\" = [\"src\"]\n" := by decide

/-! ### All ways of writing -/

/-- Settings that differ in the order of their tags at most. -/
structure Reorders (s' s : Settings) : Prop where
  /-- The same tags have the same names. -/
  scope : s'.scope.table.entries.Perm s.scope.table.entries
  /-- The manifest is the same. -/
  source : s'.source = s.source

theorem Reorders.hasNames (h : s'.Reorders s) (hs : s.scope.HasNames) : s'.scope.HasNames :=
  fun e he => hs e (h.scope.mem_iff.1 he)

theorem Reorders.agree (h : s'.Reorders s) : s'.scope.agree s.scope = true :=
  Scope.agree_iff.2 (Entries.get?_of_perm h.scope s'.scope.table.nodup)

/-- **What is written down is read back.** For every manifest:

* each way of writing it as a JSON object is read as it, in a file and inside a document,
  with its entries in order;
* what the printer makes of it is one of them, whichever removals are to be `null`.

And for all settings no name of which is blank, whatever the order of their tags:

* each way of writing them in JSON or in TOML is read as them;
* what the writers make of them are such ways, unless they name a path that is no text, for
  which there is none in either format;
* and the order of the tags is of no consequence. -/
theorem parse_written :
    (∀ (m : Manifest) (content : Bytes) (path : FilePath), m.InJson content →
      (Manifest.parse path content).value = .ok m ∧ Manifest.parseInline content = .ok m) ∧
    (∀ (m : Manifest) (removal : String → Bool), m.InJson (m.toJson removal).toBytes) ∧
    ∀ s s' : Settings, s.scope.HasNames → s'.Reorders s →
      (∀ text path, s'.InJson text → parseJson path text = .ok s') ∧
      (∀ text path, s'.InToml text → parseToml path text = .ok s') ∧
      (s.source.IsTextual →
        (∀ removal, ∃ text, Text.encode text = (s'.toJson removal).toBytes ∧ s'.InJson text) ∧
        s'.InToml s'.toToml) ∧
      (¬s.source.IsTextual → ∀ text, ¬s'.InJson text ∧ ¬s'.InToml text) ∧
      s'.scope.agree s.scope = true ∧ s'.source = s.source := by
  refine ⟨fun m content path h => ⟨h.value_parse_eq path, h.parseInline_eq⟩,
    fun m removal => m.inJson_toBytes removal, fun s s' hs h => ?_⟩
  have hs' := h.hasNames hs
  have htextual : s'.source.IsTextual ↔ s.source.IsTextual := by rw [h.source]
  refine ⟨fun text path htext => htext.parseJson_eq hs' path,
    fun text path htext => htext.parseToml_eq hs' path, fun ht => ?_, fun ht text => ?_,
    h.agree, h.source⟩
  · have ht' := htextual.2 ht
    exact ⟨fun removal => s'.exists_inJson removal ht', s'.inToml_toToml ht'⟩
  · exact ⟨fun hjson => ht (htextual.1 hjson.isTextual),
      fun htoml => ht (htextual.1 htoml.isTextual)⟩

/-- Settings with a path of no characters, one with characters that have to be escaped, and
two tags. -/
def sample : Settings where
  scope := Scope.ofList [("script", ["src"]), ("link", ["href", "data-href"])]
  source := .inline (Table.ofList [("", none), ("\"\\\n\x7f", some "\u00e9")])

/-- The same settings with their tags the other way round. -/
def swapped : Settings where
  scope := Scope.ofList [("link", ["href", "data-href"]), ("script", ["src"])]
  source := sample.source

/-- Settings with a path that is no text. -/
def unwritable : Settings := ⟨Scope.standard, .file ⟨[0xff]⟩⟩

theorem not_isTextual_unwritable : ¬unwritable.source.IsTextual := by
  rintro ⟨s, hs⟩
  obtain rfl : "\uFFFD" = s := by
    rw [← FilePath.display_ofString s, ← hs]
    decide
  exact absurd hs (by decide)

/-- The sample is read back in either order of its tags, and nothing is a writing of settings
with a path that is no text. -/
theorem parse_written_sample :
    ∃ m, sample.source = .inline m ∧
      (∀ removal, (Manifest.parse "map.json" (m.toJson removal).toBytes).value = .ok m ∧
        Manifest.parseInline (m.toJson removal).toBytes = .ok m) ∧
      (∀ s ∈ [sample, swapped], parseToml "settings.toml" s.toToml = .ok s ∧
        ∃ text, Text.encode text = (s.toJson fun _ => true).toBytes ∧
          parseJson "settings.json" text = .ok s) ∧
      ∀ text, ¬unwritable.InJson text ∧ ¬unwritable.InToml text := by
  obtain ⟨hmanifest, hwritten, hsettings⟩ := parse_written
  refine ⟨_, rfl, fun removal => hmanifest _ _ "map.json" (hwritten _ removal), ?_, ?_⟩
  · have hnames : sample.scope.HasNames := Scope.flaw?_eq_none_iff.1 (by decide)
    have hreorders : ∀ s ∈ [sample, swapped], s.Reorders sample := by
      simp only [List.forall_mem_cons, List.not_mem_nil, false_implies, implies_true, and_true]
      exact ⟨⟨.refl _, rfl⟩, ⟨by decide, rfl⟩⟩
    intro s hs
    obtain ⟨hjson, htoml, hwriters, -⟩ := hsettings sample s hnames (hreorders s hs)
    obtain ⟨hencoded, hlines⟩ := hwriters trivial
    obtain ⟨text, htext, hin⟩ := hencoded fun _ => true
    exact ⟨htoml _ "settings.toml" hlines, text, htext, hjson text "settings.json" hin⟩
  · have hnames : unwritable.scope.HasNames := Scope.flaw?_eq_none_iff.1 (by decide)
    obtain ⟨-, -, -, hnone, -⟩ := hsettings unwritable unwritable hnames ⟨.refl _, rfl⟩
    exact hnone not_isTextual_unwritable

end Settings

end Relink
