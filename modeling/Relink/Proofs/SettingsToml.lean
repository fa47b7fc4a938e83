import Relink.Proofs.Toml.Written
import Relink.Settings.Toml

/-!
# Settings written down in TOML

A scope is written down as a table with a list of strings for each tag, a manifest as a
table with a string or `false` for each path, and the path of a manifest file as one
string, which has to come before any table. The lines of such a document, in the order
in which they stand, come to the settings that were written down
(`Relink.Settings.IsStatements.parseToml_eq`).

On the way the lines are made into a tree. A header opens a table at the end of the
document, and each line under it puts its key at the end of that table, since no key
is there already: the entries of a manifest keep their order.
-/

namespace Relink

namespace Toml

/-! ### Tables of lines -/

section Blocks

variable {α : Type} {name k : String} {i : Item} {es sub : Entries Item}

/-- The lines of a table: its header, and a line for each key. -/
def Statement.block (name : String) (value : α → Value) (as : List (String × α)) :
    List Statement :=
  .table [name] :: as.map fun a => .pair [a.1] (value a.2)

theorem assign_of_notMem (h : k ∉ Entries.keys es) : assign i [k] es = some (es ++ [(k, i)]) := by
  simp [assign, Entries.get?_eq_none_iff.2 h, Entries.put_of_notMem h]

/-- A change within the last table leaves the others as they are. -/
theorem within_last (h : name ∉ Entries.keys es)
    (change : Entries Item → Option (Entries Item)) :
    within change [name] (es ++ [(name, .table .header sub)]) =
      (change sub).map fun sub => es ++ [(name, .table .header sub)] := by
  have hget : Entries.get? (es ++ [(name, .table .header sub)]) name =
      some (.table .header sub) := by
    rw [← Entries.put_of_notMem h, Entries.get?_put, if_pos rfl]
  have hput (sub' : Entries Item) :
      Entries.put (es ++ [(name, .table .header sub)]) name (.table .header sub') =
        es ++ [(name, .table .header sub')] := Entries.put_append h _ _
  cases hsub : change sub <;> simp [within, hget, hput, hsub]

variable {value : α → Value} {item : α → Item} {as : List (String × α)} {current : Key}

/-- The lines of a table put their keys at its end, in order. -/
theorem foldlM_add_pairs (hitem : ∀ a, Item.ofValue? (value a) = some (item a))
    (h : name ∉ Entries.keys es)
    (hn : (Entries.keys (sub ++ as.map fun a => (a.1, item a.2))).Nodup) :
    (as.map fun a => Statement.pair [a.1] (value a.2)).foldlM Draft.add
        ⟨es ++ [(name, .table .header sub)], [name]⟩ =
      some ⟨es ++ [(name, .table .header (sub ++ as.map fun a => (a.1, item a.2)))], [name]⟩ := by
  induction as generalizing sub with
  | nil => simp
  | cons a as ih =>
    have ha : a.1 ∉ Entries.keys sub := by
      intro ha
      rw [Entries.keys_append] at hn
      exact (List.nodup_append.1 hn).2.2 _ ha _ List.mem_cons_self rfl
    have hadd : Draft.add ⟨es ++ [(name, .table .header sub)], [name]⟩
        (.pair [a.1] (value a.2)) =
          some ⟨es ++ [(name, .table .header (sub ++ [(a.1, item a.2)]))], [name]⟩ := by
      simp [Draft.add, hitem, within_last h, assign_of_notMem ha]
    have happend : sub ++ (a :: as).map (fun a => (a.1, item a.2)) =
        sub ++ [(a.1, item a.2)] ++ as.map fun a => (a.1, item a.2) := by simp
    rw [happend] at hn ⊢
    rw [List.map_cons, List.foldlM_cons, hadd]
    exact ih hn

/-- **A table of lines is put at the end of the document.** -/
theorem foldlM_add_block (hitem : ∀ a, Item.ofValue? (value a) = some (item a))
    (h : name ∉ Entries.keys es) (hn : (Entries.keys as).Nodup) :
    (Statement.block name value as).foldlM Draft.add ⟨es, current⟩ =
      some ⟨es ++ [(name, .table .header (as.map fun a => (a.1, item a.2)))], [name]⟩ := by
  have hopen : Draft.add ⟨es, current⟩ (.table [name]) =
      some ⟨es ++ [(name, .table .header [])], [name]⟩ := by
    simp [Draft.add, Draft.openWith, within, openTable, Entries.get?_eq_none_iff.2 h,
      Entries.put_of_notMem h]
  have hkeys : (Entries.keys ([] ++ as.map fun a => (a.1, item a.2))).Nodup := by
    simpa [Entries.keys, Function.comp_def] using hn
  rw [Statement.block, List.foldlM_cons, hopen]
  exact foldlM_add_pairs hitem h hkeys

end Blocks

/-! ### Values -/

/-- A string as an item. -/
def Item.ofText (s : String) : Item := .scalar (.string s)

/-- A list of strings as an item. -/
def Item.ofNames (ns : List String) : Item := .array (ns.map .ofText)

/-- What is done to an attribute, as a value: it gets a text, or it is removed. -/
def Value.ofReplacement : Option String → Value
  | some s => .ofText s
  | none => .no

/-- The same as an item. -/
def Item.ofReplacement : Option String → Item
  | some s => .ofText s
  | none => .scalar (.boolean false)

theorem ofValue?_ofNames (ns : List String) :
    Item.ofValue? (.ofNames ns) = some (.ofNames ns) := by
  have hitems : Item.ofValues? (ns.map .ofText) = some (ns.map .ofText) := by
    induction ns with
    | nil => rfl
    | cons n ns ih => simp [Item.ofValues?, Item.ofValue?, Value.ofText, Item.ofText, ih]
  simp [Value.ofNames, Item.ofNames, Item.ofValue?, hitems]

theorem ofValue?_ofReplacement (r : Option String) :
    Item.ofValue? (.ofReplacement r) = some (.ofReplacement r) := by
  cases r <;> rfl

end Toml

/-! ### Scopes and manifests -/

namespace Scope

open Toml

/-- The lines that a scope is written down in. -/
def statements (s : Scope) : List Statement :=
  Statement.block "search" .ofNames s.table.entries

/-- The table that they make. -/
def item (s : Scope) : Item :=
  .table .header (s.table.entries.map fun e => (e.1, .ofNames e.2))

theorem namesOfItems_eq (ns : List String) : namesOfItems (ns.map .ofText) = .ok ns := by
  induction ns with
  | nil => rfl
  | cons n ns ih => simp [namesOfItems, nameOfToml, Item.ofText, ih, bind, Except.bind]

theorem ofEntries_eq (ps : List (String × List String)) (s : Scope) :
    ofEntries s (ps.map fun p => (p.1, .ofNames p.2)) =
      .ok (ps.foldl (fun s p => s.put p.1 p.2) s) := by
  induction ps generalizing s with
  | nil => rfl
  | cons p ps ih =>
    have hnames : namesOfToml (.ofNames p.2) = .ok p.2 := namesOfItems_eq p.2
    simp only [List.map_cons, ofEntries, hnames, bind, Except.bind, ih, List.foldl_cons]

/-- A scope is read back from its table. -/
theorem ofToml_item (s : Scope) : ofToml s.item = .ok s := by
  have hs := ofEntries_eq s.table.entries empty
  rwa [show s.table.entries.foldl (fun s p => s.put p.1 p.2) empty = s from ofList_entries s] at hs

end Scope

namespace Manifest

open Toml

/-- The lines that a manifest is written down in. -/
def statements (m : Manifest) : List Statement :=
  Statement.block "pathMap" .ofReplacement m.entries

/-- The table that they make. -/
def item (m : Manifest) : Item :=
  .table .header (m.entries.map fun e => (e.1, .ofReplacement e.2))

theorem ofEntries_eq (ps : List (String × Option String)) (m : Manifest) :
    ofEntries m (ps.map fun p => (p.1, .ofReplacement p.2)) =
      .ok (ps.foldl (fun m p => m.put p.1 p.2) m) := by
  induction ps generalizing m with
  | nil => rfl
  | cons p ps ih =>
    have hreplacement : replacementOfToml p.1 (.ofReplacement p.2) = .ok p.2 := by
      cases p.2 <;> rfl
    simp only [List.map_cons, ofEntries, hreplacement, bind, Except.bind, ih, List.foldl_cons]

/-- A manifest is read back from its table. -/
theorem ofToml_item (m : Manifest) : ManifestSource.ofToml m.item = .ok (.inline m) := by
  have hm := ofEntries_eq m.entries Table.empty
  rw [show m.entries.foldl (fun m p => m.put p.1 p.2) Table.empty = m from
    Table.ofList_entries m] at hm
  simp [ManifestSource.ofToml, item, hm, bind, Except.bind]

end Manifest

/-! ### Settings -/

namespace Settings

open Toml

/-- **The lines that settings are written down in.** The path of a file comes first, since
it belongs to no table; the two tables come in either order. -/
inductive IsStatements : Settings → List Statement → Prop
  /-- The manifest is in a file. -/
  | file (scope : Scope) (path : String) :
      IsStatements ⟨scope, .file path⟩ (.pair ["pathMap"] (.ofText path) :: scope.statements)
  /-- The manifest comes after the scope. -/
  | scopeFirst (scope : Scope) (m : Manifest) :
      IsStatements ⟨scope, .inline m⟩ (scope.statements ++ m.statements)
  /-- The manifest comes before the scope. -/
  | manifestFirst (scope : Scope) (m : Manifest) :
      IsStatements ⟨scope, .inline m⟩ (m.statements ++ scope.statements)

variable {s : Settings} {ss : List Statement}

theorem foldlM_add_scope (scope : Scope) {es : Entries Item} {current : Key}
    (h : "search" ∉ Entries.keys es) :
    scope.statements.foldlM Draft.add ⟨es, current⟩ =
      some ⟨es ++ [("search", scope.item)], ["search"]⟩ :=
  foldlM_add_block ofValue?_ofNames h scope.table.nodup

theorem foldlM_add_manifest (m : Manifest) {es : Entries Item} {current : Key}
    (h : "pathMap" ∉ Entries.keys es) :
    m.statements.foldlM Draft.add ⟨es, current⟩ =
      some ⟨es ++ [("pathMap", m.item)], ["pathMap"]⟩ :=
  foldlM_add_block ofValue?_ofReplacement h m.nodup

/-- The two tables that lines make. -/
theorem IsStatements.exists_ofStatements? (h : IsStatements s ss) :
    ∃ es, ofStatements? ss = some es ∧ ofToml es = .ok s := by
  cases h with
  | file scope path =>
    have hpath : Draft.add Draft.empty (.pair ["pathMap"] (.ofText path)) =
        some ⟨[("pathMap", .ofText path)], []⟩ := rfl
    refine ⟨[("pathMap", .ofText path), ("search", scope.item)], ?_, ?_⟩
    · rw [ofStatements?, List.foldlM_cons, hpath]
      simp [foldlM_add_scope]
    · simp [ofToml, fieldsOfToml, fieldOfToml, Field.ofName?, Partial.empty, Partial.complete,
        ManifestSource.ofToml, Item.ofText, Scope.ofToml_item, bind, Except.bind]
  | scopeFirst scope m =>
    refine ⟨[("search", scope.item), ("pathMap", m.item)], ?_, ?_⟩
    · simp [ofStatements?, Draft.empty, foldlM_add_scope, foldlM_add_manifest]
    · simp [ofToml, fieldsOfToml, fieldOfToml, Field.ofName?, Partial.empty, Partial.complete,
        Manifest.ofToml_item, Scope.ofToml_item, bind, Except.bind]
  | manifestFirst scope m =>
    refine ⟨[("pathMap", m.item), ("search", scope.item)], ?_, ?_⟩
    · simp [ofStatements?, Draft.empty, foldlM_add_scope, foldlM_add_manifest]
    · simp [ofToml, fieldsOfToml, fieldOfToml, Field.ofName?, Partial.empty, Partial.complete,
        Manifest.ofToml_item, Scope.ofToml_item, bind, Except.bind]

/-- **What was written down is read back.** -/
theorem IsStatements.decodeToml_eq (h : IsStatements s ss) {text : String}
    (hlines : Lines text.toList ss) : decodeToml text = .ok s := by
  obtain ⟨es, hes, hs⟩ := h.exists_ofStatements?
  have htext : Toml.ofText? text = some es := by
    simp [Toml.ofText?, hlines.ofText?_eq, hes]
  simp only [decodeToml, htext, hs]

end Settings

end Relink
