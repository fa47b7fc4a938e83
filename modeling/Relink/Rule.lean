import Relink.PathPattern

/-!
# Rules

A rule says what becomes of an attribute whose value denotes a path. There are only
two things that can: the value is replaced, or the attribute is removed. An empty
replacement removes as well, so that no rule ever leaves an attribute empty.
-/

namespace Relink

/-- What becomes of an attribute. -/
inductive Action where
  /-- It gets this value. -/
  | replace (value : String)
  /-- It is removed. -/
  | remove
deriving DecidableEq

namespace Action

/-- The action of a replacement that may be missing or empty. -/
def ofReplacement : Option String → Action
  | some r => if r = "" then .remove else .replace r
  | none => .remove

theorem ofReplacement_ne_replace_empty (r : Option String) :
    ofReplacement r ≠ .replace "" := by
  cases r with
  | none => simp [ofReplacement]
  | some r => by_cases h : r = "" <;> simp [ofReplacement, h]

end Action

/-- What becomes of the attributes whose values denote a path. -/
structure Rule where
  /-- The path. -/
  path : String
  /-- What becomes of the attribute. -/
  action : Action
  /-- The pattern of the path is small enough. -/
  fits : (PathPattern.ofPath path).Fits
deriving DecidableEq

namespace Rule

/-- The rule of a path, unless its pattern is too large. -/
def ofPath? (path : String) (action : Action) : Option Rule :=
  if h : (PathPattern.ofPath path).Fits then some ⟨path, action, h⟩ else none

/-- The pattern that the rule matches with. -/
def pattern (r : Rule) : PathPattern := .ofPath r.path

/-- The value denotes the rule's path. -/
def accepts (r : Rule) (value : String) : Bool := r.pattern.accepts value

theorem ofPath?_eq_some_iff {path : String} {action : Action} {r : Rule} :
    ofPath? path action = some r ↔ r.path = path ∧ r.action = action := by
  unfold ofPath?
  constructor
  · intro h
    split at h
    · simp only [Option.some.injEq] at h
      exact ⟨by rw [← h], by rw [← h]⟩
    · cases h
  · rintro ⟨rfl, rfl⟩
    rw [dif_pos r.fits]

theorem ofPath?_eq_none_iff {path : String} {action : Action} :
    ofPath? path action = none ↔ ¬ (PathPattern.ofPath path).Fits := by
  unfold ofPath?
  split <;> simp_all

end Rule

end Relink
