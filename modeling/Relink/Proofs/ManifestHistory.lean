import Relink.Proofs.Json.Grammar
import Relink.Proofs.PlainManifest

/-!
# Manifests by their history

A manifest may have been written path by path, and some of its paths more than once. What
its rulebook does can be told from that history (`Rulebook.ofManifest_ofList`), and the two
things that a path has in it come from different places: its turn from the first time that
it was written, its replacement from the last (`Relink.Entries.settle`). So to write a path
again changes what its rule does, but not which values are left for it by the rules before.

A history makes no rulebook if the pattern of one of its paths is too large, and the first
such path is to blame, in the order in which they would have been tried.
-/

namespace Relink

/-! ### Replacements and rules -/

/-- **What a replacement asks for**: to remove an attribute if it is missing or empty, and
otherwise to put itself in place of the value. -/
inductive Action.AskedBy : Option String → Action → Prop
  /-- There is no replacement. -/
  | missing : AskedBy none .remove
  /-- The replacement is empty. -/
  | empty : AskedBy (some "") .remove
  /-- There is a replacement. -/
  | value {s : String} (h : s ≠ "") : AskedBy (some s) (.replace s)

theorem Action.askedBy_iff {o : Option String} {a : Action} :
    AskedBy o a ↔ a = ofReplacement o := by
  constructor
  · intro h
    cases h with
    | missing => rfl
    | empty => rfl
    | value h => rw [ofReplacement, if_neg h]
  · rintro rfl
    rcases o with _ | s
    · exact .missing
    · by_cases hs : s = ""
      · subst hs
        exact .empty
      · rw [ofReplacement, if_neg hs]
        exact .value hs

/-- **The rule of an entry**: it has the path of the entry, and does what its replacement
asks for. -/
structure Rule.IsOf (r : Rule) (e : String × Option String) : Prop where
  /-- The path is that of the entry. -/
  path : r.path = e.1
  /-- The replacement asks for the action. -/
  action : Action.AskedBy e.2 r.action

theorem Rule.isOf_iff {r : Rule} {e : String × Option String} :
    r.IsOf e ↔ (r.path, r.action) = (e.1, Action.ofReplacement e.2) := by
  rw [Prod.mk.injEq, ← Action.askedBy_iff]
  exact ⟨fun h => ⟨h.path, h.action⟩, fun h => ⟨h.1, h.2⟩⟩

/-! ### The first entry -/

theorem Manifest.first?_eq_some_iff {m : Manifest} {value : String}
    {e : String × Option String} :
    m.first? value = some e ↔
      Denotes e.1.toList value.toList ∧ ∃ before after, m.entries = before ++ e :: after ∧
        ∀ e' ∈ before, ¬Denotes e'.1.toList value.toList := by
  simp only [first?, List.find?_eq_some_iff_append, Bool.not_eq_true', Bool.eq_false_iff, ne_eq,
    PathPattern.accepts_iff_denotes]

namespace Rulebook

variable {m : Manifest} {b : Rulebook} {failure : Failure}

/-! ### Too large patterns -/

/-- The first entry is named whose pattern is too large. -/
theorem rulesOf_eq_error_iff {es : List (String × Option String)} :
    rulesOf es = .error failure ↔
      ∃ before e after, es = before ++ e :: after ∧
        (∀ e ∈ before, (PathPattern.ofPath e.1).Fits) ∧ ¬(PathPattern.ofPath e.1).Fits ∧
        failure = .patternTooLarge e.1 := by
  induction es with
  | nil => simp [rulesOf]
  | cons e es ih =>
    by_cases he : (PathPattern.ofPath e.1).Fits
    · have hrules : rulesOf (e :: es) = .error failure ↔ rulesOf es = .error failure := by
        have hrule : ruleOf e = .ok ⟨e.1, .ofReplacement e.2, he⟩ :=
          ruleOf_eq_ok_iff.2 ⟨rfl, rfl⟩
        rw [rulesOf, hrule]
        cases rulesOf es <;> simp [bind, Except.bind]
      rw [hrules, ih]
      constructor
      · rintro ⟨before, e', after, rfl, hbefore, he', hf⟩
        exact ⟨e :: before, e', after, rfl, by simpa [he] using hbefore, he', hf⟩
      · rintro ⟨_ | ⟨d, before⟩, e', after, hes, hbefore, he', hf⟩
        · obtain ⟨rfl, -⟩ := List.cons.inj hes
          exact absurd he he'
        · obtain ⟨rfl, rfl⟩ := List.cons.inj hes
          exact ⟨before, e', after, rfl, fun d hd => hbefore d (List.mem_cons_of_mem _ hd), he',
          hf⟩
    · have hrules : rulesOf (e :: es) = .error (.patternTooLarge e.1) := by
        rw [rulesOf, ruleOf, Rule.ofPath?_eq_none_iff.2 he]
        rfl
      rw [hrules]
      constructor
      · intro h
        cases h
        exact ⟨[], e, es, rfl, by simp, he, rfl⟩
      · -- the entry is the first of all, so it is the one that is named
        rintro ⟨_ | ⟨d, before⟩, e', after, hes, hbefore, -, rfl⟩
        · obtain ⟨rfl, -⟩ := List.cons.inj hes
          rfl
        · obtain ⟨rfl, -⟩ := List.cons.inj hes
          exact absurd (hbefore e List.mem_cons_self) he

theorem ofManifest_eq_error_iff :
    ofManifest m = .error failure ↔ rulesOf m.entries = .error failure := by
  rw [ofManifest]
  cases rulesOf m.entries <;> simp [bind, Except.bind]

/-! ### What is found -/

/-- The rules of a manifest are those of its entries, one by one. -/
theorem forall₂_isOf (hb : ofManifest m = .ok b) :
    List.Forall₂ Rule.IsOf b.rules m.entries := by
  have hrules := ofManifest_eq_ok_iff.1 hb
  simpa only [← List.forall₂_eq_eq_eq, List.forall₂_map_left_iff, List.forall₂_map_right_iff,
    ← Rule.isOf_iff] using hrules

theorem find?_eq_some_iff (hb : ofManifest m = .ok b) {value : String} {r : Rule} :
    b.find? value = some r ↔ ∃ e, m.first? value = some e ∧ r.IsOf e := by
  have hfirst := find?_ofManifest hb value
  constructor
  · intro h
    rw [h, Option.map_some, eq_comm, Option.map_eq_some_iff] at hfirst
    obtain ⟨e, he, hr⟩ := hfirst
    exact ⟨e, he, Rule.isOf_iff.2 hr.symm⟩
  · rintro ⟨e, he, hr⟩
    rw [he, Option.map_some, ← Rule.isOf_iff.1 hr] at hfirst
    exact eq_of_map_eq hfirst

theorem find?_eq_none_iff (hb : ofManifest m = .ok b) {value : String} :
    b.find? value = none ↔ ∀ e ∈ m.entries, ¬Denotes e.1.toList value.toList := by
  have hfirst := find?_ofManifest hb value
  rw [← Option.map_eq_none_iff, hfirst, Option.map_eq_none_iff, Manifest.first?,
    List.find?_eq_none]
  simp only [PathPattern.accepts_iff_denotes]

/-- **What a history of a manifest comes to.** The paths that count are each path once,
where it was first written, with the replacement that it was given last.

* If the pattern of one of them is too large there is no rulebook, and the first such path
  is named.
* Otherwise there is one rule for each of them, in this order. For a value, the rule that is
  found is that of the first path that the value denotes; it removes if the last replacement
  was missing or empty, and puts exactly that replacement otherwise. None is found for a
  value that denotes none of the paths. -/
theorem ofManifest_ofList (ps : List (String × Option String)) :
    (∀ failure, ofManifest (Table.ofList ps) = .error failure ↔
      ∃ before e after, Entries.settle ps = before ++ e :: after ∧
        (∀ e ∈ before, (PathPattern.ofPath e.1).Fits) ∧ ¬(PathPattern.ofPath e.1).Fits ∧
        failure = .patternTooLarge e.1) ∧
    ((∀ e ∈ Entries.settle ps, (PathPattern.ofPath e.1).Fits) →
      ∃ b, ofManifest (Table.ofList ps) = .ok b ∧
        List.Forall₂ Rule.IsOf b.rules (Entries.settle ps) ∧
        ∀ value : String,
          (b.find? value = none ↔
            ∀ e ∈ Entries.settle ps, ¬Denotes e.1.toList value.toList) ∧
          ∀ r, b.find? value = some r ↔
            ∃ before e after, Entries.settle ps = before ++ e :: after ∧
              (∀ e' ∈ before, ¬Denotes e'.1.toList value.toList) ∧
              Denotes e.1.toList value.toList ∧ r.IsOf e) := by
  have hentries : (Table.ofList ps).entries = Entries.settle ps := by
    rw [Table.entries_ofList, Entries.putAll_nil_eq_settle]
  rw [← hentries]
  refine ⟨fun failure => ?_, fun hfits => ?_⟩
  · rw [ofManifest_eq_error_iff, rulesOf_eq_error_iff]
  · obtain ⟨b, hb⟩ := exists_ofManifest_iff.2 hfits
    refine ⟨b, hb, forall₂_isOf hb, fun value => ⟨find?_eq_none_iff hb, fun r => ?_⟩⟩
    rw [find?_eq_some_iff hb]
    simp only [Manifest.first?_eq_some_iff]
    constructor
    · rintro ⟨e, ⟨hdenotes, before, after, hes, hbefore⟩, hr⟩
      exact ⟨before, e, after, hes, hbefore, hdenotes, hr⟩
    · rintro ⟨before, e, after, hes, hbefore, hdenotes, hr⟩
      exact ⟨e, ⟨hdenotes, before, after, hes, hbefore⟩, hr⟩

/-- A path that is written again, behind one that the same values denote. -/
def rewritten : List (String × Option String) :=
  [("a/b.js", some "first.js"), ("a\\b.js", some "second.js"), ("a/b.js", some "")]

/-- Only so many characters fit in a path. -/
theorem fits_replicate_iff (n : Nat) :
    (PathPattern.ofPath (String.ofList (List.replicate n 'a'))).Fits ↔ n ≤ 327626 := by
  have hfold (k start : Nat) :
      (List.replicate k (Atom.literal 'a')).foldl (fun n a => n + a.size) start =
        start + 32 * k := by
    induction k generalizing start with
    | zero => rfl
    | succ k ih =>
      have hsize : (Atom.literal 'a').size = 32 := by decide
      rw [List.replicate_succ, List.foldl_cons, ih, hsize]
      omega
  have hdrop : PathPattern.dropSeparator (List.replicate n 'a') = List.replicate n 'a' := by
    cases n <;> rfl
  have hatom : Atom.ofChar 'a' = .literal 'a' := rfl
  rw [PathPattern.Fits, PathPattern.size, PathPattern.ofPath, String.toList_ofList, hdrop,
    List.map_replicate, hatom, hfold, PathPattern.baseSize, PathPattern.sizeLimit]
  omega

/-- A path whose pattern is too large. -/
def tooLong : String := String.ofList (List.replicate 400000 'a')

/-- The path that was written again keeps its turn and has its last replacement. A single
path that is too long is enough for there to be no rules. -/
theorem ofManifest_ofList_rewritten :
    (∃ b r r', ofManifest (Table.ofList rewritten) = .ok b ∧ b.rules = [r, r'] ∧
      r.IsOf ("a/b.js", some "") ∧ r.action = .remove ∧ b.find? "/a\\b.js" = some r ∧
      r'.accepts "/a\\b.js" = true) ∧
    ofManifest (Table.ofList [(tooLong, none)]) = .error (.patternTooLarge tooLong) := by
  constructor
  · have hsettle : Entries.settle rewritten =
        [("a/b.js", some ""), ("a\\b.js", some "second.js")] := by decide
    have hfits : ∀ e ∈ Entries.settle rewritten, (PathPattern.ofPath e.1).Fits := by decide
    obtain ⟨b, hb, hrules, hfind⟩ := (ofManifest_ofList rewritten).2 hfits
    rw [hsettle] at hrules
    obtain ⟨r, rs, hr, hrs, hbr⟩ := List.forall₂_cons_right_iff.1 hrules
    obtain ⟨r', rs', hr', hnil, rfl⟩ := List.forall₂_cons_right_iff.1 hrs
    obtain rfl := List.forall₂_nil_right_iff.1 hnil
    have hdenotes : Denotes "a/b.js".toList "/a\\b.js".toList :=
      (PathPattern.accepts_iff_denotes _ _).1 (by decide)
    refine ⟨b, r, r', hb, hbr, hr, ?_, ?_, ?_⟩
    · exact Action.askedBy_iff.1 hr.action
    · exact ((hfind _).2 r).2 ⟨[], _, _, hsettle, by simp, hdenotes, hr⟩
    · rw [Rule.accepts, Rule.pattern, hr'.path]
      decide
  · have hsettle (path : String) (o : Option String) :
        Entries.settle [(path, o)] = [(path, o)] := by
      simp [Entries.settle, distinct, Entries.get?]
    have hlarge : ¬(PathPattern.ofPath tooLong).Fits := by
      intro hfits
      have hle := (fits_replicate_iff 400000).1 hfits
      omega
    exact ((ofManifest_ofList [(tooLong, none)]).1 _).2
      ⟨[], (tooLong, none), [], hsettle tooLong none, by simp, hlarge, rfl⟩

end Rulebook

end Relink
