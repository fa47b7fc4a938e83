import Relink.Proofs.PlainPath
import Relink.Proofs.SettingsJson
import Relink.Settings.Toml

/-!
# Blank names

A scope in which a tag or an attribute has a blank name is refused, and the reason that is
given is that of the first entry with such a name. But a scope has no first entry: its tags
may be gone through in any order. What the order can make a difference to is settled here
(`Relink.Settings.blank_names_refused`): whether there is a flaw does not depend on it, the
flaws that are found in some order are those of the entries, one for each bad entry, and if
only one entry is bad, it is always the same flaw that is found.

Settings in either format are refused for a flaw exactly if they could be understood and
their scope has one. What is wrong with a text is never taken for a flaw, and no flaw gets
through.
-/

namespace Relink

/-! ### Blank names -/

namespace Text

/-- Nothing is left of a text exactly if there was nothing but blanks. -/
theorem trim_eq_nil_iff {cs : List Char} : trim cs = [] ↔ IsBlanks cs := by
  constructor
  · intro h
    obtain ⟨w₁, w₂, hcs, h₁, h₂⟩ := exists_append_trim cs
    rw [h, List.append_nil] at hcs
    rw [hcs]
    exact h₁.append h₂
  · intro h
    exact trim_append_blanks [] h

theorem isBlankName_iff {s : String} : isBlankName s = true ↔ IsBlanks s.toList := by
  rw [isBlankName, List.isEmpty_iff, trim_eq_nil_iff]

end Text

/-! ### What an entry is refused for -/

namespace Scope

variable {s : Scope} {e : String × List String} {order : List (String × List String)}
  {flaw : Flaw} {reason : String}

/-- **What an entry is refused for**, in words: a blank tag, whatever is listed for it, and
otherwise a blank attribute name, with the tag that it is listed for. -/
inductive Offends : String × List String → String → Prop where
  /-- The tag is blank. -/
  | tag {tag : String} {names : List String} (blank : Text.IsBlanks tag.toList) :
    Offends (tag, names) "tag name must not be empty"
  /-- The tag has a name, and an attribute has none. -/
  | attribute {tag name : String} {names : List String} (named : ¬Text.IsBlanks tag.toList)
    (mem : name ∈ names) (blank : Text.IsBlanks name.toList) :
    Offends (tag, names) ("attribute name for <" ++ tag ++ "> must not be empty")

theorem offends_iff :
    Offends e reason ↔ ∃ flaw, entryFlaw? e = some flaw ∧ flaw.reason = reason := by
  constructor
  · rintro (@⟨tag, names, blank⟩ | @⟨tag, name, names, named, mem, blank⟩)
    · exact ⟨.blankTag, by simp [entryFlaw?, Text.isBlankName_iff.2 blank], rfl⟩
    · have htag : Text.isBlankName tag = false := by
        simpa [← Text.isBlankName_iff] using named
      have hname : names.any Text.isBlankName = true :=
        List.any_eq_true.2 ⟨name, mem, Text.isBlankName_iff.2 blank⟩
      exact ⟨.blankAttribute tag, by simp [entryFlaw?, htag, hname], rfl⟩
  · rintro ⟨flaw, hflaw, rfl⟩
    obtain ⟨tag, names⟩ := e
    rw [entryFlaw?] at hflaw
    split at hflaw
    · next htag =>
      cases hflaw
      exact .tag (Text.isBlankName_iff.1 htag)
    · next htag =>
      split at hflaw
      · next hnames =>
        cases hflaw
        obtain ⟨name, mem, hname⟩ := List.any_eq_true.1 hnames
        exact .attribute (mt Text.isBlankName_iff.2 htag) mem (Text.isBlankName_iff.1 hname)
      · cases hflaw

/-- The words tell the flaw. -/
theorem Flaw.reason_injective : Function.Injective Flaw.reason := by
  have hwords (tag : String) : Flaw.blankTag.reason ≠ (Flaw.blankAttribute tag).reason := by
    -- they begin with different letters
    have ht : Flaw.blankTag.reason.toList.head? = some 't' := by decide
    have ha : "attribute name for <".toList.head? = some 'a' := by decide
    have hreason : (Flaw.blankAttribute tag).reason =
        "attribute name for <" ++ tag ++ "> must not be empty" := rfl
    intro h
    rw [h, hreason, String.toList_append, String.toList_append, List.append_assoc,
      List.head?_append, ha, Option.some_or] at ht
    exact absurd ht (by decide)
  intro a b h
  rcases a with _ | tag <;> rcases b with _ | tag'
  · rfl
  · exact absurd h (hwords tag')
  · exact absurd h.symm (hwords tag)
  · rw [(String.append_right_inj _).1 ((String.append_left_inj _).1 h)]

theorem offends_reason_iff : Offends e flaw.reason ↔ entryFlaw? e = some flaw := by
  rw [offends_iff]
  constructor
  · rintro ⟨flaw', hflaw, hreason⟩
    exact Flaw.reason_injective hreason ▸ hflaw
  · intro hflaw
    exact ⟨flaw, hflaw, rfl⟩

/-! ### Any order of the tags -/

/-- The flaw that is found when the entries are gone through in an order. -/
def flawIn? (order : List (String × List String)) : Option Flaw := order.findSome? entryFlaw?

theorem flawIn?_entries (s : Scope) : flawIn? s.table.entries = s.flaw? := rfl

/-- In no order is there a flaw in a scope without blank names, and in each there is one in
any other. -/
theorem flawIn?_eq_none_iff (h : order.Perm s.table.entries) :
    flawIn? order = none ↔ s.HasNames := by
  rw [← flaw?_eq_none_iff, flaw?, flawIn?, List.findSome?_eq_none_iff,
    List.findSome?_eq_none_iff]
  exact forall_congr' fun e => imp_congr_left h.mem_iff

theorem exists_of_flawIn? (h : order.Perm s.table.entries) (hflaw : flawIn? order = some flaw) :
    ∃ e ∈ s.table.entries, entryFlaw? e = some flaw := by
  obtain ⟨e, he, hflaw⟩ := List.exists_of_findSome?_eq_some hflaw
  exact ⟨e, h.mem_iff.1 he, hflaw⟩

/-- **The flaws that can be found** are those of the entries. -/
theorem exists_flawIn?_iff :
    (∃ order, order.Perm s.table.entries ∧ flawIn? order = some flaw) ↔
      ∃ e ∈ s.table.entries, Offends e flaw.reason := by
  simp only [offends_reason_iff]
  constructor
  · rintro ⟨order, hperm, hflaw⟩
    exact exists_of_flawIn? hperm hflaw
  · rintro ⟨e, he, hflaw⟩
    -- the entry may come before all others
    refine ⟨e :: s.table.entries.erase e, (List.perm_cons_erase he).symm, ?_⟩
    rw [flawIn?, List.findSome?_cons, hflaw]

/-- There are not two bad tags. -/
def OneOffends (s : Scope) : Prop :=
  ∀ e ∈ s.table.entries, ∀ e' ∈ s.table.entries, ∀ reason reason',
    Offends e reason → Offends e' reason' → e.1 = e'.1

theorem oneOffends_iff :
    s.OneOffends ↔ ∀ e ∈ s.table.entries, ∀ e' ∈ s.table.entries,
      entryFlaw? e ≠ none → entryFlaw? e' ≠ none → e.1 = e'.1 := by
  have hbad (e : String × List String) : entryFlaw? e ≠ none ↔ ∃ reason, Offends e reason := by
    simp only [offends_iff, Option.ne_none_iff_exists']
    exact ⟨fun ⟨flaw, h⟩ => ⟨_, flaw, h, rfl⟩, fun ⟨_, flaw, h, _⟩ => ⟨flaw, h⟩⟩
  simp only [OneOffends, hbad, forall_exists_index]
  refine forall₄_congr fun e _ e' _ => ?_
  exact ⟨fun h r hr r' hr' => h r r' hr hr', fun h r r' hr hr' => h r hr r' hr'⟩

/-- If only one tag is bad, the order makes no difference to what is found. -/
theorem OneOffends.flawIn?_eq (hone : s.OneOffends) (h : order.Perm s.table.entries) :
    flawIn? order = s.flaw? := by
  rcases hflaw : s.flaw? with _ | flaw
  · exact (flawIn?_eq_none_iff h).2 (flaw?_eq_none_iff.1 hflaw)
  · rcases hflaw' : flawIn? order with _ | flaw'
    · have hnone := flaw?_eq_none_iff.2 ((flawIn?_eq_none_iff h).1 hflaw')
      rw [hflaw] at hnone
      cases hnone
    · obtain ⟨e, he, hfound⟩ := exists_of_flawIn? (.refl _) hflaw
      obtain ⟨e', he', hfound'⟩ := exists_of_flawIn? h hflaw'
      have htag : e'.1 = e.1 := hone e' he' e he _ _
        (offends_reason_iff.2 hfound') (offends_reason_iff.2 hfound)
      -- a tag has but one entry
      have hnames : some e'.2 = some e.2 := by
        rw [← Entries.get?_of_mem s.table.nodup he', ← Entries.get?_of_mem s.table.nodup he, htag]
      rw [← hfound', ← hfound, Prod.ext htag (Option.some.inj hnames)]

end Scope

/-! ### Settings in both formats -/

namespace Settings

variable {s : Settings} {order : List (String × List String)}

/-- Settings that have been validated, with their tags gone through in an order. -/
def validatedIn (order : List (String × List String)) (s : Settings) : Except Failure Settings :=
  match Scope.flawIn? order with
  | some flaw => .error (.badScope flaw)
  | none => .ok s

theorem validatedIn_entries (s : Settings) : s.validatedIn s.scope.table.entries = s.validated := by
  rw [validatedIn, validated, validate, Scope.flawIn?_entries]
  cases s.scope.flaw? <;> rfl

theorem validatedIn_eq_badScope_iff (h : order.Perm s.scope.table.entries) :
    (∃ flaw, s.validatedIn order = .error (.badScope flaw)) ↔ ¬s.scope.HasNames := by
  rw [← Scope.flawIn?_eq_none_iff h, validatedIn]
  cases Scope.flawIn? order <;> simp

theorem validatedIn_eq_ok_iff {s' : Settings} (h : order.Perm s.scope.table.entries) :
    s.validatedIn order = .ok s' ↔ s = s' ∧ s.scope.HasNames := by
  rw [← Scope.flawIn?_eq_none_iff h, validatedIn]
  cases Scope.flawIn? order <;> simp

/-- A format of settings. -/
inductive Format where
  /-- JSON. -/
  | json
  /-- TOML. -/
  | toml

namespace Format

variable {f : Format} {path : FilePath} {text : String}

/-- The settings of a document, before they are validated. -/
def decode (f : Format) (path : FilePath) (text : String) : Except Failure Settings :=
  match f with
  | .json => (decodeJson text).mapError (.jsonSettings path)
  | .toml => (decodeToml text).mapError (.tomlSettings path)

/-- The settings of a document. -/
def parse (f : Format) (path : FilePath) (text : String) : Except Failure Settings :=
  match f with
  | .json => parseJson path text
  | .toml => parseToml path text

/-- **What can come of a document**: its settings cannot be understood, or they are validated
in some order of their tags. -/
inductive Parses (f : Format) (path : FilePath) (text : String) : Except Failure Settings → Prop where
  /-- There are no settings. -/
  | undecoded {failure : Failure} (decode : f.decode path text = .error failure) :
    Parses f path text (.error failure)
  /-- There are settings. -/
  | decoded {s : Settings} {order : List (String × List String)}
    (decode : f.decode path text = .ok s) (perm : order.Perm s.scope.table.entries) :
    Parses f path text (s.validatedIn order)

theorem parse_eq (f : Format) (path : FilePath) (text : String) :
    f.parse path text = (f.decode path text).bind validated := by
  cases f with
  | json =>
    rw [parse, parseJson, decode]
    cases decodeJson text <;> rfl
  | toml =>
    rw [parse, parseToml, decode]
    cases decodeToml text <;> rfl

theorem parses_parse (f : Format) (path : FilePath) (text : String) :
    f.Parses path text (f.parse path text) := by
  rw [parse_eq]
  rcases h : f.decode path text with failure | s
  · exact .undecoded h
  · show f.Parses path text s.validated
    rw [← validatedIn_entries]
    exact .decoded h (.refl _)

/-- What cannot be understood is not refused for a flaw. -/
theorem decode_ne_badScope (f : Format) (path : FilePath) (text : String) (flaw : Scope.Flaw) :
    f.decode path text ≠ .error (.badScope flaw) := by
  cases f with
  | json =>
    rw [decode]
    cases decodeJson text <;> simp [Except.mapError]
  | toml =>
    rw [decode]
    cases decodeToml text <;> simp [Except.mapError]

/-- **A document is refused for a flaw** exactly if there are settings in it, with a blank
name. -/
theorem Parses.badScope_iff {outcome : Except Failure Settings} (h : f.Parses path text outcome) :
    (∃ flaw, outcome = .error (.badScope flaw)) ↔
      ∃ s, f.decode path text = .ok s ∧ ¬s.scope.HasNames := by
  cases h with
  | undecoded hdecode =>
    constructor
    · rintro ⟨flaw, hflaw⟩
      exact absurd (hdecode.trans hflaw) (f.decode_ne_badScope path text flaw)
    · rintro ⟨s, hs, -⟩
      rw [hdecode] at hs
      cases hs
  | decoded hdecode hperm =>
    rw [validatedIn_eq_badScope_iff hperm, hdecode]
    simp only [Except.ok.injEq, exists_eq_left']

/-- No blank name gets through. -/
theorem Parses.hasNames (h : f.Parses path text (.ok s)) : s.scope.HasNames := by
  generalize houtcome : Except.ok s = outcome at h
  cases h with
  | undecoded hdecode => cases houtcome
  | decoded hdecode hperm =>
    obtain ⟨rfl, hnames⟩ := (validatedIn_eq_ok_iff hperm).1 houtcome.symm
    exact hnames

end Format

/-- **Blank names are refused in whatever order the tags are gone through.** Of every scope:

* a flaw is found in all orders, or in none if no name is blank;
* the flaws that are found in some order are those of the entries;
* if no two tags are bad, the same flaw is found in all orders.

And of every document in either format, whatever comes of it:

* it is refused for a flaw exactly if there are settings with a blank name in it;
* settings that come of it have no blank name, and no name twice under a tag. -/
theorem blank_names_refused :
    (∀ s : Scope,
      (∀ order, order.Perm s.table.entries → (Scope.flawIn? order = none ↔ s.HasNames)) ∧
      (∀ flaw : Scope.Flaw,
        (∃ order, order.Perm s.table.entries ∧ Scope.flawIn? order = some flaw) ↔
          ∃ e ∈ s.table.entries, Scope.Offends e flaw.reason) ∧
      (s.OneOffends → ∀ order, order.Perm s.table.entries → Scope.flawIn? order = s.flaw?)) ∧
    ∀ (f : Format) (path : FilePath) (text : String),
      f.Parses path text (f.parse path text) ∧
      ∀ outcome, f.Parses path text outcome →
        ((∃ flaw, outcome = .error (.badScope flaw)) ↔
          ∃ s, f.decode path text = .ok s ∧ ¬s.scope.HasNames) ∧
        ∀ s, outcome = .ok s →
          s.scope.HasNames ∧ ∀ e ∈ s.scope.table.entries, e.2.Nodup := by
  refine ⟨fun s => ⟨?_, ?_, ?_⟩, fun f path text => ⟨f.parses_parse path text, ?_⟩⟩
  · intro order h
    exact Scope.flawIn?_eq_none_iff h
  · intro flaw
    exact Scope.exists_flawIn?_iff
  · intro hone order h
    exact hone.flawIn?_eq h
  · intro outcome h
    refine ⟨h.badScope_iff, ?_⟩
    rintro s rfl
    exact ⟨h.hasNames, s.scope.nodup⟩

/-- A blank tag with a blank attribute, and a blank attribute of another tag. -/
def twoBad : Scope := .ofList [(" ", ["\t"]), ("a", ["href", "\u00a0"]), ("script", ["src"])]

/-- One blank attribute, behind one that has a name. -/
def oneBad : Scope := .ofList [("a", ["href"]), ("script", ["src", " "])]

/-- A document that lists a blank attribute. -/
def listsBlank : String := "pathMap = \"m.json\"\n[search]\nscript = [\"\"]\n"

/-- Of two bad tags either may be found first, of one bad tag it is always that one. -/
theorem blank_names_refused_twoBad :
    (∃ order, order.Perm twoBad.table.entries ∧ Scope.flawIn? order = some .blankTag) ∧
    (∃ order, order.Perm twoBad.table.entries ∧
      Scope.flawIn? order = some (.blankAttribute "a")) ∧
    (∀ order, order.Perm oneBad.table.entries →
      Scope.flawIn? order = some (.blankAttribute "script")) ∧
    ∀ outcome, Format.toml.Parses "settings.toml" listsBlank outcome →
      ∃ flaw, outcome = .error (.badScope flaw) := by
  obtain ⟨hscopes, hparses⟩ := blank_names_refused
  obtain ⟨-, hfound, -⟩ := hscopes twoBad
  refine ⟨(hfound _).2 ?_, (hfound _).2 ?_, fun order h => ?_, fun outcome h => ?_⟩
  · exact ⟨(" ", ["\t"]), by decide, .tag (Text.isBlankName_iff.1 (by decide))⟩
  · exact ⟨("a", ["href", "\u00a0"]), by decide,
      .attribute (mt Text.isBlankName_iff.2 (by decide)) (by decide)
        (Text.isBlankName_iff.1 (show Text.isBlankName "\u00a0" = true by decide))⟩
  · have hone : oneBad.OneOffends := Scope.oneOffends_iff.2 (by decide)
    exact ((hscopes oneBad).2.2 hone order h).trans (by decide)
  · have hdecode : Format.toml.decode "settings.toml" listsBlank =
        .ok ⟨.ofList [("script", [""])], .file "m.json"⟩ := by decide +kernel
    have hblank : ¬(Scope.ofList [("script", [""])]).HasNames := by
      rw [← Scope.flaw?_eq_none_iff]
      decide
    exact ((hparses .toml "settings.toml" listsBlank).2 outcome h).1.2 ⟨_, hdecode, hblank⟩

end Settings

end Relink
