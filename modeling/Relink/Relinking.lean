import Relink.Event
import Relink.Markup.Walk
import Relink.Rulebook

/-!
# Relinking

One attribute is relinked by the first rule that accepts its value: at most one
rule is applied, and the new value is not looked at again. A tree is relinked by
doing this, at every element, for the attributes that the scope lists for its tag,
in the order of that list; those that are missing or empty are passed over.

What was done is counted, and each change is told as an event.
-/

namespace Relink

/-- What was done to an attribute. -/
inductive Change where
  /-- It got a value. -/
  | relinked
  /-- It was removed. -/
  | removed
  /-- Nothing. -/
  | unchanged
deriving DecidableEq

namespace StartTag

/-- Relinks one attribute by the first rule that accepts its value. -/
def relink (b : Rulebook) (s : StartTag) (name : String) : Logged (Change × StartTag) :=
  match s.get? name with
  | none => pure (.unchanged, s)
  | some value =>
    match b.find? value with
    | none => pure (.unchanged, s)
    | some rule =>
      match rule.action with
      | .replace r => ⟨(.relinked, s.set name r), [.relinked s.name name rule.path r]⟩
      | .remove => ⟨(.removed, s.remove name), [.removed s.name name rule.path]⟩

end StartTag

/-- How far a tree has been relinked. -/
structure Progress where
  /-- How many attributes got a value. -/
  relinked : Nat
  /-- How many attributes were removed. -/
  removed : Nat
  /-- The events so far, the latest first. -/
  told : List Event
deriving DecidableEq

namespace Progress

/-- Nothing has been done yet. -/
def start : Progress := ⟨0, 0, []⟩

/-- One more attribute has been looked at. -/
def add (p : Progress) (c : Change) (events : List Event) : Progress :=
  let told := events.reverse ++ p.told
  match c with
  | .relinked => ⟨p.relinked + 1, p.removed, told⟩
  | .removed => ⟨p.relinked, p.removed + 1, told⟩
  | .unchanged => ⟨p.relinked, p.removed, told⟩

/-- The events so far, in order. -/
def events (p : Progress) : List Event := p.told.reverse

@[simp] theorem events_start : start.events = [] := rfl

@[simp] theorem events_add (p : Progress) (c : Change) (es : List Event) :
    (p.add c es).events = p.events ++ es := by
  cases c <;> simp [add, events]

end Progress

namespace Relinking

/-- Relinks one listed attribute, unless it is missing or empty. -/
def listed (b : Rulebook) (s : StartTag) (p : Progress) (name : String) : StartTag × Progress :=
  match s.get? name with
  | none => (s, p)
  | some value =>
    if value = "" then (s, p)
    else
      let r := s.relink b name
      (r.value.2, p.add r.value.1 r.events)

/-- Relinks the listed attributes, in the order of the list. -/
def allListed (b : Rulebook) : List String → StartTag → Progress → StartTag × Progress
  | [], s, p => (s, p)
  | name :: names, s, p =>
    let (s, p) := listed b s p name
    allListed b names s p

/-- Relinks the attributes of an element that are in scope. -/
def visitor (b : Rulebook) (scope : Scope) : Visitor Progress := fun s p =>
  match scope.attributes? s.name with
  | none => (s.attributes, p)
  | some names =>
    let (s, p) := allListed b names s p
    (s.attributes, p)

/-- Relinks a tree. -/
def tree {T : Type} [Walkable T] (b : Rulebook) (scope : Scope) (t : T) : T × Progress :=
  Walkable.walk (visitor b scope) t Progress.start

end Relinking

end Relink
