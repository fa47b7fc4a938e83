import Relink.Failure
import Relink.Manifest.Basic
import Relink.Rule

/-!
# Rulebooks

The rules of a manifest, one for each path, in its order; on a value, the first
rule that accepts it is the one that counts. A manifest one of whose paths has too
large a pattern has no rulebook, and the first such path is to blame.
-/

namespace Relink

/-- The entry that decides about a value: the first one whose path it denotes. -/
def Manifest.first? (m : Manifest) (value : String) : Option (String × Option String) :=
  m.entries.find? fun e => (PathPattern.ofPath e.1).accepts value

/-- Rules in the order in which they are tried. -/
structure Rulebook where
  /-- The rules. -/
  rules : List Rule
deriving DecidableEq

namespace Rulebook

/-- The rule of an entry. -/
def ruleOf (e : String × Option String) : Except Failure Rule :=
  match Rule.ofPath? e.1 (.ofReplacement e.2) with
  | some r => .ok r
  | none => .error (.patternTooLarge e.1)

theorem ruleOf_eq_ok_iff {e : String × Option String} {r : Rule} :
    ruleOf e = .ok r ↔ r.path = e.1 ∧ r.action = .ofReplacement e.2 := by
  rw [← Rule.ofPath?_eq_some_iff, ruleOf]
  cases Rule.ofPath? e.1 (.ofReplacement e.2) <;> simp

/-- The rules of entries, in order. -/
def rulesOf : List (String × Option String) → Except Failure (List Rule)
  | [] => .ok []
  | e :: es => do
    let r ← ruleOf e
    let rs ← rulesOf es
    .ok (r :: rs)

theorem rulesOf_cons_eq_ok_iff {e : String × Option String} {es : List (String × Option String)}
    {rs : List Rule} :
    rulesOf (e :: es) = .ok rs ↔
      ∃ r rs', ruleOf e = .ok r ∧ rulesOf es = .ok rs' ∧ rs = r :: rs' := by
  rw [rulesOf]
  cases ruleOf e with
  | error f => simp [bind, Except.bind]
  | ok r => cases rulesOf es <;> simp [bind, Except.bind, eq_comm]

/-- A rule is settled by its path and its action, so the rules of entries are settled
by the entries. -/
theorem rulesOf_eq_ok_iff {es : List (String × Option String)} {rs : List Rule} :
    rulesOf es = .ok rs ↔
      rs.map (fun r => (r.path, r.action)) = es.map (fun e => (e.1, .ofReplacement e.2)) := by
  induction es generalizing rs with
  | nil => simp [rulesOf]
  | cons e es ih =>
    rw [rulesOf_cons_eq_ok_iff]
    cases rs with
    | nil => simp
    | cons r rs =>
      simp only [ruleOf_eq_ok_iff, ih, List.cons.injEq, List.map_cons, Prod.mk.injEq]
      constructor
      · rintro ⟨_, _, hr, hrs, rfl, rfl⟩
        exact ⟨hr, hrs⟩
      · rintro ⟨hr, hrs⟩
        exact ⟨r, rs, hr, hrs, rfl, rfl⟩

/-- The rulebook of a manifest. -/
def ofManifest (m : Manifest) : Except Failure Rulebook := do
  let rules ← rulesOf m.entries
  .ok ⟨rules⟩

/-- The first rule that accepts the value. -/
def find? (b : Rulebook) (value : String) : Option Rule := b.rules.find? (·.accepts value)

theorem ofManifest_eq_ok_iff {m : Manifest} {b : Rulebook} :
    ofManifest m = .ok b ↔
      b.rules.map (fun r => (r.path, r.action)) =
        m.entries.map (fun e => (e.1, .ofReplacement e.2)) := by
  rw [← rulesOf_eq_ok_iff, ofManifest]
  cases b with
  | mk rules => cases rulesOf m.entries <;> simp [bind, Except.bind]

/-- The first rule that accepts a value is that of the first entry whose path the
value denotes. -/
theorem find?_ofManifest {m : Manifest} {b : Rulebook} (h : ofManifest m = .ok b)
    (value : String) :
    (b.find? value).map (fun r => (r.path, r.action)) =
      (m.first? value).map (fun e => (e.1, .ofReplacement e.2)) := by
  let denotes := fun a : String × Action => (PathPattern.ofPath a.1).accepts value
  calc (b.find? value).map (fun r => (r.path, r.action))
      = (b.rules.map fun r => (r.path, r.action)).find? denotes := by
        rw [List.find?_map]
        rfl
    _ = (m.entries.map fun e => (e.1, .ofReplacement e.2)).find? denotes := by
        rw [ofManifest_eq_ok_iff.1 h]
    _ = (m.first? value).map (fun e => (e.1, .ofReplacement e.2)) := by
        rw [List.find?_map]
        rfl

end Rulebook

end Relink
