import Relink.Failure

/-!
# Events

What happens while rules are loaded and trees are relinked is told as it happens.
A computation that tells events is its result together with the events in order
(`Logged`); one after another, their events follow each other.
-/

namespace Relink

/-- Something that happened. -/
inductive Event where
  /-- An entry of a manifest file held its replacement in an object. -/
  | unwrapped (key replacement : String)
  /-- A manifest file was read. -/
  | loaded (path : FilePath) (entries : Nat)
  /-- Rules were made of a manifest. -/
  | compiled (rules : Nat)
  /-- An attribute got a new value, by the rule of a path. -/
  | relinked (tag name path value : String)
  /-- An attribute was removed, by the rule of a path. -/
  | removed (tag name path : String)
  /-- A tree was relinked. -/
  | finished (relinked removed : Nat)
  /-- There are no rules to relink with. -/
  | unavailable (failure : Failure)
deriving DecidableEq

/-- How much attention an event asks for. -/
inductive Event.Level where
  /-- It is of interest when something is looked for. -/
  | debug
  /-- It is of interest when everything is looked at. -/
  | trace
deriving DecidableEq

/-- What an event says about one of its aspects. -/
inductive Event.Detail where
  /-- A text. -/
  | text (s : String)
  /-- A count. -/
  | count (n : Nat)
deriving DecidableEq

namespace Event

/-- The level of an event: single attributes are traced, all else is for debugging. -/
def level : Event → Level
  | .relinked .. => .trace
  | .removed .. => .trace
  | _ => .debug

/-- The event in words. -/
def message : Event → String
  | .unwrapped .. => "Unwrapped legacy path entry"
  | .loaded .. => "Loaded path map"
  | .compiled .. => "Compiled path rules"
  | .relinked .. => "Rewrote attribute"
  | .removed .. => "Removed attribute"
  | .finished .. => "Remapped tree"
  | .unavailable .. => "Path map unavailable"

/-- The aspects of an event, by name. -/
def details : Event → List (String × Detail)
  | .unwrapped key replacement => [("key", .text key), ("path", .text replacement)]
  | .loaded path entries => [("path", .text path.display), ("entries", .count entries)]
  | .compiled rules => [("rules", .count rules)]
  | .relinked tag name path value =>
    [("tag", .text tag), ("attr", .text name), ("from", .text path), ("to", .text value)]
  | .removed tag name path =>
    [("tag", .text tag), ("attr", .text name), ("from", .text path)]
  | .finished changed gone => [("rewritten", .count changed), ("removed", .count gone)]
  | .unavailable failure => [("error", .text failure.message)]

end Event

/-- A result with the events on the way to it. -/
structure Logged (α : Type) where
  /-- The result. -/
  value : α
  /-- The events, in order. -/
  events : List Event

namespace Logged

variable {α β : Type}

instance : Monad Logged where
  pure a := ⟨a, []⟩
  bind x f := ⟨(f x.value).value, x.events ++ (f x.value).events⟩

/-- Tells an event. -/
def tell (e : Event) : Logged Unit := ⟨(), [e]⟩

@[simp] theorem value_pure (a : α) : (pure a : Logged α).value = a := rfl

@[simp] theorem events_pure (a : α) : (pure a : Logged α).events = [] := rfl

@[simp] theorem value_bind (x : Logged α) (f : α → Logged β) :
    (x >>= f).value = (f x.value).value := rfl

@[simp] theorem events_bind (x : Logged α) (f : α → Logged β) :
    (x >>= f).events = x.events ++ (f x.value).events := rfl

@[simp] theorem events_tell (e : Event) : (tell e).events = [e] := rfl

end Logged

end Relink
