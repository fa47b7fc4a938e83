import Mathlib.Logic.Relation
import Relink.Relinker

/-!
# Sharing a relinker

One relinker may serve many callers at once. Their calls overlap: one begins while
another waits for the file, a third while the rules are being compiled, and the
files change all the while. What a call comes to does not depend on any of this.

A *session* is a relinker together with all that goes on around it: the files as
they are at the moment, the calls that have begun and those that have ended, and
the call that is loading the rules, if there is one. It takes one step at a time,
in any order that the following rules allow
(`Relink.Session.Step`). A call that finds nothing remembered and nobody loading
claims the load; it then reads and compiles; and what it has got is stored. Only
when an outcome is stored does any call go on, the one that loaded it like all the
others, and it goes on as `Relink.Relinker.ready` and `Relink.Relinker.transform`
do. That there is one load at a time, that waiting calls are taken up again and
that no call is broken off is what the steps assume of the cell in which the outcome
is kept; when the load happens, and what the files are then, is left open.

The invariant has three cases (`Relink.Session.Standing`): nothing has been read
and no call has ended; the outcome of what has been read is on its way to the cell;
it is in the cell, and every call that has ended has been answered by it. From
there the session never goes back.

A session also keeps what has been read of the files (`Relink.Session.reads`).
Nothing looks at it, but the outcome of a load is a function of it and of the source
(`Relink.ManifestSource.Yields`).
-/

namespace Relink

/-! ### What a load reads

A load reads the file of the manifest, if the manifest is in a file. All it
depends on is what it finds there. -/

/-- What may come of reading a file. -/
abbrev Reading := Except ReadFault Bytes

namespace ManifestSource

/-- What a load from a source reads. -/
def reads (files : FileSystem) : ManifestSource → List Reading
  | .inline _ => []
  | .file path => [files.read path]

/-- A load from a source that has read the given contents comes to the given
outcome. -/
inductive Yields : ManifestSource → List Reading → Except Failure Rulebook → Prop
  /-- A manifest that is given needs no reading. -/
  | inline (m : Manifest) : Yields (.inline m) [] (Rulebook.ofManifest m)
  /-- A file that cannot be read gives no rules. -/
  | unreadable (path : FilePath) (fault : ReadFault) :
      Yields (.file path) [.error fault] (.error (.manifestUnreadable path fault))
  /-- A file that can be read is parsed, and its manifest compiled. -/
  | read (path : FilePath) (bytes : Bytes) :
      Yields (.file path) [.ok bytes]
        ((Manifest.parse path bytes).value.bind Rulebook.ofManifest)

theorem Yields.unique {s : ManifestSource} {rs : List Reading} {o o' : Except Failure Rulebook}
    (h : s.Yields rs o) (h' : s.Yields rs o') : o = o' := by
  cases h <;> cases h' <;> rfl

theorem Yields.length_le_one {s : ManifestSource} {rs : List Reading}
    {o : Except Failure Rulebook} (h : s.Yields rs o) : rs.length ≤ 1 := by
  cases h <;> simp

theorem value_load_manifest {path : FilePath} {files : FileSystem} {bytes : Bytes}
    (h : files.read path = .ok bytes) :
    (Manifest.load path files).value = (Manifest.parse path bytes).value := by
  simp only [Manifest.load, h]
  rcases hp : (Manifest.parse path bytes).value with failure | m <;> simp [hp]

theorem value_compile (files : FileSystem) (s : ManifestSource) :
    (s.compile files).value = (s.resolve files).value.bind Rulebook.ofManifest := by
  rcases hr : (s.resolve files).value with failure | m
  · simp [compile, hr, Except.bind]
  · rcases hb : Rulebook.ofManifest m with failure | b <;>
      simp [compile, hr, hb, Except.bind]

theorem yields_compile (files : FileSystem) (s : ManifestSource) :
    s.Yields (s.reads files) (s.compile files).value := by
  rw [value_compile]
  cases s with
  | inline m => exact Yields.inline m
  | file path =>
    rcases hr : files.read path with fault | bytes
    · simpa [reads, resolve, Manifest.load, hr, Except.bind] using Yields.unreadable path fault
    · simpa [reads, resolve, hr, value_load_manifest hr] using Yields.read path bytes

end ManifestSource

namespace Relinker

variable {r : Relinker} {o : Except Failure Rulebook}

/-- What a call reads of the files: nothing, once there is an outcome to go by. -/
def reads (files : FileSystem) (r : Relinker) : List Reading :=
  match r.memo with
  | some _ => []
  | none => r.source.reads files

theorem reads_of_memo (files : FileSystem) (h : r.memo = some o) : r.reads files = [] := by
  simp [reads, h]

theorem load_of_memo (files : FileSystem) (h : r.memo = some o) : r.load files = pure o := by
  simp [load, h]

theorem yields_load (files : FileSystem) (h : r.memo = none) :
    r.source.Yields (r.reads files) (r.load files).value := by
  simpa [reads, load, h] using r.source.yields_compile files

end Relinker

/-! ### Calls -/

/-- What a caller asks for. Trees of all types may be relinked in one session. -/
inductive Task where
  /-- To have loading tried, and to get the outcome. -/
  | ready
  /-- To have a tree relinked. -/
  | transform {T : Type} [Walkable T] (t : T)

namespace Task

/-- What a caller gets. -/
def Answer : Task → Type
  | .ready => Except Failure Rulebook
  | @transform T _ _ => Relinker.Outcome T

/-- The call that a caller makes. -/
def run (files : FileSystem) (r : Relinker) : (task : Task) → Logged (task.Answer × Relinker)
  | .ready => r.ready files
  | @transform _ _ t => r.transform files t

/-- What a caller should get when loading has come to an outcome: nothing but the
outcome, the scope and the tree itself has a part in it. -/
def answer (scope : Scope) (outcome : Except Failure Rulebook) : (task : Task) → task.Answer
  | .ready => outcome
  | @transform _ _ t =>
    match outcome with
    | .error failure => ⟨t, some failure⟩
    | .ok b => ⟨(Relinking.tree b scope t).1, none⟩

/-- What a call comes to, in terms of the outcome that it finds or loads. -/
theorem value_run (files : FileSystem) (r : Relinker) (task : Task) :
    (task.run files r).value =
      (task.answer r.scope (r.load files).value, { r with memo := some (r.load files).value }) := by
  rcases h : (r.load files).value with failure | b
  · cases task with
    | ready =>
      show (r.ready files).value = _
      rw [Relinker.ready_of_load_error h]
      rfl
    | transform t =>
      show (r.transform files t).value = _
      rw [Relinker.transform_of_load_error t h]
      rfl
  · cases task with
    | ready =>
      show (r.ready files).value = _
      rw [Relinker.ready_of_load_ok h]
      rfl
    | transform t =>
      show (r.transform files t).value = _
      rw [Relinker.transform_of_load_ok t h]
      rfl

end Task

/-- A call that has begun. -/
inductive Call where
  /-- It has not ended yet. -/
  | pending (task : Task)
  /-- It has ended, with an answer. -/
  | done (task : Task) (answer : task.Answer)

namespace Call

/-- The call has ended. -/
def IsDone : Call → Prop
  | pending _ => False
  | done _ _ => True

/-- The call has got what an outcome gives it, if it has got anything. -/
def AnsweredBy (scope : Scope) (outcome : Except Failure Rulebook) : Call → Prop
  | pending _ => True
  | done task answer => answer = task.answer scope outcome

theorem answeredBy_of_not_isDone {c : Call} (h : ¬c.IsDone) (scope : Scope)
    (o : Except Failure Rulebook) : c.AnsweredBy scope o := by
  cases c with
  | pending task => exact trivial
  | done task answer => exact absurd trivial h

end Call

/-- How far the call that loads the rules has come. -/
inductive Loader where
  /-- The call at a place has claimed the load. -/
  | claimed (i : Nat)
  /-- It has read and compiled, and is about to store the outcome. -/
  | loaded (i : Nat) (outcome : Except Failure Rulebook)

/-- A relinker and all that goes on around it. -/
structure Session where
  /-- The relinker. -/
  relinker : Relinker
  /-- The files as they are now. -/
  files : FileSystem
  /-- The call that is loading, if there is one. -/
  loader : Option Loader
  /-- The calls, in the order in which they began. -/
  calls : List Call
  /-- What has been read of the files so far. -/
  reads : List Reading

namespace Session

/-- A session that begins. -/
def start (settings : Settings) (files : FileSystem) : Session where
  relinker := Relinker.ofSettings settings
  files := files
  loader := none
  calls := []
  reads := []

/-- One thing happens in a session. -/
inductive Step : Session → Session → Prop
  /-- A call begins. -/
  | call (s : Session) (task : Task) : Step s { s with calls := s.calls ++ [.pending task] }
  /-- The files become others. -/
  | alter (s : Session) (files : FileSystem) : Step s { s with files := files }
  /-- A call that finds nothing remembered, and nobody loading, claims the load. -/
  | claim {s : Session} {i : Nat} {task : Task} (memo : s.relinker.memo = none)
      (loader : s.loader = none) (call : s.calls[i]? = some (.pending task)) :
      Step s { s with loader := some (.claimed i) }
  /-- The call that has claimed the load reads and compiles. -/
  | load {s : Session} {i : Nat} (loader : s.loader = some (.claimed i)) :
      Step s { s with
        loader := some (.loaded i (s.relinker.load s.files).value)
        reads := s.reads ++ s.relinker.reads s.files }
  /-- What it has got is stored. -/
  | store {s : Session} {i : Nat} {o : Except Failure Rulebook}
      (loader : s.loader = some (.loaded i o)) :
      Step s { s with
        relinker := { s.relinker with memo := some o }
        loader := none }
  /-- A call goes on to its end, once an outcome is stored. -/
  | finish {s : Session} {i : Nat} {task : Task} {o : Except Failure Rulebook}
      (memo : s.relinker.memo = some o) (call : s.calls[i]? = some (.pending task)) :
      Step s { s with
        relinker := (task.run s.files s.relinker).value.2
        calls := s.calls.set i (.done task (task.run s.files s.relinker).value.1)
        reads := s.reads ++ s.relinker.reads s.files }

/-- Any number of steps. -/
abbrev Runs : Session → Session → Prop := Relation.ReflTransGen Step

variable {s s' : Session}

/-- A call that goes on from a stored outcome leaves it in its place and reads nothing:
all that changes is that the call has got its answer. -/
theorem finish_eq {i : Nat} {task : Task} {o : Except Failure Rulebook}
    (hm : s.relinker.memo = some o) :
    { s with
      relinker := (task.run s.files s.relinker).value.2
      calls := s.calls.set i (.done task (task.run s.files s.relinker).value.1)
      reads := s.reads ++ s.relinker.reads s.files } =
    { s with calls := s.calls.set i (.done task (task.answer s.relinker.scope o)) } := by
  have hkept : { s.relinker with memo := some o } = s.relinker := by rw [← hm]
  rw [Relinker.reads_of_memo s.files hm, List.append_nil, Task.value_run,
    Relinker.load_of_memo s.files hm, Logged.value_pure, hkept]

theorem step_done {i : Nat} {task : Task} {o : Except Failure Rulebook}
    (hm : s.relinker.memo = some o) (hc : s.calls[i]? = some (.pending task)) :
    Step s { s with calls := s.calls.set i (.done task (task.answer s.relinker.scope o)) } := by
  rw [← finish_eq hm]
  exact .finish hm hc

/-! ### The invariant -/

/-- Where a session stands with the load. -/
inductive Standing (settings : Settings) (s : Session) : Prop
  /-- Nothing has been read, and no call has ended. -/
  | untried (memo : s.relinker.memo = none)
      (loader : s.loader = none ∨ ∃ i, s.loader = some (.claimed i))
      (reads : s.reads = []) (calls : ∀ c ∈ s.calls, ¬c.IsDone)
  /-- The outcome of what has been read is about to be stored, and no call has ended. -/
  | underway (i : Nat) (o : Except Failure Rulebook) (memo : s.relinker.memo = none)
      (loader : s.loader = some (.loaded i o)) (yields : settings.source.Yields s.reads o)
      (calls : ∀ c ∈ s.calls, ¬c.IsDone)
  /-- The outcome of what has been read is stored, and has answered every call that has
  ended. -/
  | settled (o : Except Failure Rulebook) (memo : s.relinker.memo = some o)
      (loader : s.loader = none) (yields : settings.source.Yields s.reads o)
      (calls : ∀ c ∈ s.calls, c.AnsweredBy settings.scope o)

/-- What is true of a session at all times. -/
structure Sound (settings : Settings) (s : Session) : Prop where
  /-- The scope is the one of the settings. -/
  scope : s.relinker.scope = settings.scope
  /-- The source is the one of the settings. -/
  source : s.relinker.source = settings.source
  /-- It stands with the load in one of three ways. -/
  standing : Standing settings s

variable {settings : Settings}

theorem sound_start (settings : Settings) (files : FileSystem) :
    Sound settings (start settings files) where
  scope := rfl
  source := rfl
  standing := .untried rfl (.inl rfl) rfl (by simp [start])

/-- A call that begins has not ended, and so it changes nothing. -/
theorem Standing.call (h : Standing settings s) (task : Task) :
    Standing settings { s with calls := s.calls ++ [.pending task] } := by
  have hp : ¬(Call.pending task).IsDone := id
  cases h with
  | untried memo loader reads calls =>
    exact .untried memo loader reads
      (List.forall_mem_append.2 ⟨calls, List.forall_mem_singleton.2 hp⟩)
  | underway i o memo loader yields calls =>
    exact .underway i o memo loader yields
      (List.forall_mem_append.2 ⟨calls, List.forall_mem_singleton.2 hp⟩)
  | settled o memo loader yields calls =>
    exact .settled o memo loader yields
      (List.forall_mem_append.2 ⟨calls, List.forall_mem_singleton.2 trivial⟩)

/-- A load that is claimed has not read anything yet, and what it comes to is what
its reading yields. -/
theorem Sound.load (h : Sound settings s) {i : Nat} (hl : s.loader = some (.claimed i)) :
    Standing settings { s with
      loader := some (.loaded i (s.relinker.load s.files).value)
      reads := s.reads ++ s.relinker.reads s.files } := by
  cases h.standing with
  | untried memo loader reads calls =>
    refine .underway i _ memo rfl ?_ calls
    show settings.source.Yields (s.reads ++ s.relinker.reads s.files) _
    rw [reads, List.nil_append, ← h.source]
    exact Relinker.yields_load s.files memo
  | underway j o memo loader yields calls => rw [hl] at loader; cases loader
  | settled o memo loader yields calls => rw [hl] at loader; cases loader

theorem Standing.store (h : Standing settings s) {i : Nat} {o : Except Failure Rulebook}
    (hl : s.loader = some (.loaded i o)) :
    Standing settings { s with
      relinker := { s.relinker with memo := some o }
      loader := none } := by
  cases h with
  | untried memo loader reads calls =>
    rcases loader with loader | ⟨j, loader⟩ <;> rw [hl] at loader <;> cases loader
  | underway j o' memo loader yields calls =>
    obtain ⟨rfl, rfl⟩ : i = j ∧ o = o' := by
      rw [hl] at loader
      cases loader
      exact ⟨rfl, rfl⟩
    exact .settled o rfl rfl yields fun c hc => Call.answeredBy_of_not_isDone (calls c hc) _ _
  | settled o' memo loader yields calls => rw [hl] at loader; cases loader

/-- Once an outcome is stored, the load is over, and the outcome is what the reading has
yielded and what has answered. -/
theorem Standing.of_memo (h : Standing settings s) {o : Except Failure Rulebook}
    (hm : s.relinker.memo = some o) :
    s.loader = none ∧ settings.source.Yields s.reads o ∧
      ∀ c ∈ s.calls, c.AnsweredBy settings.scope o := by
  cases h with
  | untried memo loader reads calls => rw [hm] at memo; cases memo
  | underway j o' memo loader yields calls => rw [hm] at memo; cases memo
  | settled o' memo loader yields calls =>
    obtain rfl : o = o' := Option.some.inj (hm.symm.trans memo)
    exact ⟨loader, yields, calls⟩

/-- A call that ends is answered by the outcome that is stored. -/
theorem Sound.finish (h : Sound settings s) {i : Nat} {task : Task}
    {o : Except Failure Rulebook} (hm : s.relinker.memo = some o) :
    Standing settings { s with
      calls := s.calls.set i (.done task (task.answer s.relinker.scope o)) } := by
  obtain ⟨loader, yields, calls⟩ := h.standing.of_memo hm
  refine .settled o hm loader yields fun c hc => ?_
  rcases List.mem_or_eq_of_mem_set hc with hc | rfl
  · exact calls c hc
  · show task.answer s.relinker.scope o = task.answer settings.scope o
    rw [h.scope]

/-- **The invariant is preserved by every step.** -/
theorem Sound.step (h : Sound settings s) (hs : Step s s') : Sound settings s' := by
  cases hs with
  | call task => exact ⟨h.scope, h.source, h.standing.call task⟩
  | alter files =>
    -- the invariant is about what has been read, and not about what could be read now
    refine ⟨h.scope, h.source, ?_⟩
    cases h.standing with
    | untried memo loader reads calls => exact .untried memo loader reads calls
    | underway i o memo loader yields calls => exact .underway i o memo loader yields calls
    | settled o memo loader yields calls => exact .settled o memo loader yields calls
  | claim memo loader call =>
    refine ⟨h.scope, h.source, ?_⟩
    cases h.standing with
    | untried memo loader reads calls => exact .untried memo (.inr ⟨_, rfl⟩) reads calls
    | underway i o memo loader' yields calls => rw [loader] at loader'; cases loader'
    | settled o memo' loader yields calls => rw [memo] at memo'; cases memo'
  | load loader => exact ⟨h.scope, h.source, h.load loader⟩
  | store loader => exact ⟨h.scope, h.source, h.standing.store loader⟩
  | finish memo call =>
    rw [finish_eq memo]
    exact ⟨h.scope, h.source, h.finish memo⟩

/-- The invariant survives any number of steps. -/
theorem Sound.runs (h : Sound settings s) (hs : Runs s s') : Sound settings s' := by
  induction hs with
  | refl => exact h
  | tail _ hstep ih => exact ih.step hstep

theorem Sound.length_reads_le_one (h : Sound settings s) : s.reads.length ≤ 1 := by
  cases h.standing with
  | untried memo loader reads calls => simp [reads]
  | underway i o memo loader yields calls => exact yields.length_le_one
  | settled o memo loader yields calls => exact yields.length_le_one

/-- The cell is written once: an outcome that is stored stays, and nothing is read any
more. -/
theorem Sound.step_of_memo (h : Sound settings s) {o : Except Failure Rulebook}
    (hm : s.relinker.memo = some o) (hs : Step s s') :
    s'.relinker.memo = some o ∧ s'.reads = s.reads := by
  have hl : s.loader = none := (h.standing.of_memo hm).1
  cases hs with
  | call task => exact ⟨hm, rfl⟩
  | alter files => exact ⟨hm, rfl⟩
  | claim memo loader call => rw [hm] at memo; cases memo
  | load loader => rw [hl] at loader; cases loader
  | store loader => rw [hl] at loader; cases loader
  | finish memo call =>
    rw [finish_eq memo]
    exact ⟨hm, rfl⟩

theorem Sound.runs_of_memo (h : Sound settings s) {o : Except Failure Rulebook}
    (hm : s.relinker.memo = some o) (hs : Runs s s') :
    s'.relinker.memo = some o ∧ s'.reads = s.reads := by
  induction hs with
  | refl => exact ⟨hm, rfl⟩
  | tail hruns hstep ih =>
    obtain ⟨hm', hreads⟩ := (h.runs hruns).step_of_memo ih.1 hstep
    exact ⟨hm', hreads.trans ih.2⟩

/-! ### Going on

A load that has been claimed can be brought to its end at once, and so can every
call. A call that nothing comes in between of is the call of the relinker itself. -/

theorem runs_of_claimed {i : Nat} (hl : s.loader = some (.claimed i)) :
    Runs s { s with
      relinker := { s.relinker with memo := some (s.relinker.load s.files).value }
      loader := none
      reads := s.reads ++ s.relinker.reads s.files } :=
  .tail (.single (.load hl)) (.store rfl)

/-- **An uninterrupted call is the call itself**: it answers, remembers and reads what
the relinker does when it is called. -/
theorem runs_call {i : Nat} {task : Task} (hm : s.relinker.memo = none) (hl : s.loader = none)
    (hc : s.calls[i]? = some (.pending task)) :
    Runs s { s with
      relinker := (task.run s.files s.relinker).value.2
      loader := none
      calls := s.calls.set i (.done task (task.run s.files s.relinker).value.1)
      reads := s.reads ++ s.relinker.reads s.files } := by
  rw [Task.value_run]
  refine .head (.claim hm hl hc) (.tail (runs_of_claimed rfl) ?_)
  exact step_done rfl hc

/-- Nothing is ever stuck: from wherever a session has come to, it can go on to an
outcome that is stored without any call beginning or any file changing. -/
theorem Sound.exists_memo (h : Sound settings s) {i : Nat} {task : Task}
    (hc : s.calls[i]? = some (.pending task)) :
    ∃ s' o, Runs s s' ∧ s'.relinker.memo = some o ∧ s'.calls = s.calls ∧ s'.files = s.files := by
  cases h.standing with
  | untried memo loader reads calls =>
    -- if nobody has claimed the load, the waiting call can
    rcases loader with loader | ⟨j, loader⟩
    · exact ⟨_, _, .head (.claim memo loader hc) (runs_of_claimed rfl), rfl, rfl, rfl⟩
    · exact ⟨_, _, runs_of_claimed loader, rfl, rfl, rfl⟩
  | underway j o memo loader yields calls => exact ⟨_, _, .single (.store loader), rfl, rfl, rfl⟩
  | settled o memo loader yields calls => exact ⟨s, o, .refl, memo, rfl, rfl⟩

/-- **Every call can be brought to its end**, at any time in any session. -/
theorem exists_done_of_runs (settings : Settings) (files : FileSystem) {i : Nat} {task : Task}
    (before : Runs (start settings files) s) (hc : s.calls[i]? = some (.pending task)) :
    ∃ s' answer, Runs s s' ∧ s'.files = s.files ∧ s'.calls[i]? = some (.done task answer) := by
  obtain ⟨s', o, hruns, hm, hcalls, hfiles⟩ :=
    ((sound_start settings files).runs before).exists_memo hc
  rw [← hcalls] at hc
  obtain ⟨hi, -⟩ := List.getElem?_eq_some_iff.1 hc
  exact ⟨_, _, hruns.tail (step_done hm hc), hfiles, List.getElem?_set_self hi⟩

/-! ### What all calls have in common -/

/-- **One load decides about all calls.** In every session, whatever calls begin,
however they overlap and whatever becomes of the files:

* the files are read at most once;
* an outcome that is stored is there for good, and is the only one that the source
  and what has been read of it can yield;
* every call that has ended has been answered by that outcome: with the rules or the
  failure itself, a tree by relinking it with those rules in the scope of the settings,
  or, if it is a failure, by leaving it as it was. -/
theorem answeredBy_of_runs (settings : Settings) (files : FileSystem) {s s' : Session}
    (before : Runs (start settings files) s) (after : Runs s s') :
    s'.reads.length ≤ 1 ∧
    (∀ o, s.relinker.memo = some o → s'.relinker.memo = some o ∧ s'.reads = s.reads) ∧
    (∀ o, s'.relinker.memo = some o →
      (∀ o', settings.source.Yields s'.reads o' ↔ o' = o) ∧
        ∀ c ∈ s'.calls, c.AnsweredBy settings.scope o) ∧
    ((∃ c ∈ s'.calls, c.IsDone) → ∃ o, s'.relinker.memo = some o) := by
  have hs : Sound settings s := (sound_start settings files).runs before
  have hs' : Sound settings s' := hs.runs after
  refine ⟨hs'.length_reads_le_one, fun o hm => hs.runs_of_memo hm after, ?_, ?_⟩
  · intro o hm
    obtain ⟨-, yields, calls⟩ := hs'.standing.of_memo hm
    refine ⟨fun o' => ⟨fun h => h.unique yields, ?_⟩, calls⟩
    rintro rfl
    exact yields
  · rintro ⟨c, hc, hdone⟩
    cases hs'.standing with
    | untried memo loader reads calls => exact absurd hdone (calls c hc)
    | underway i o memo loader yields calls => exact absurd hdone (calls c hc)
    | settled o memo loader yields calls => exact ⟨o, memo⟩

/-- Settings with a manifest in a file outside of the working directory. -/
def elsewhere : Settings := ⟨Scope.standard, .file "/srv/map.json"⟩

/-- The files when there is a manifest in it. -/
def provided : FileSystem :=
  FileSystem.empty.put "/srv/map.json" (Text.encode "\x7b\"a.js\":\"b.js\"\x7d")

theorem fits_provided : (PathPattern.ofPath "a.js").Fits := by decide

/-- The rules of that manifest. -/
def providedRules : Rulebook := ⟨[⟨"a.js", .replace "b.js", fits_provided⟩]⟩

/-- A session in which loading has come to its outcome, and the call that has loaded is
still waiting. -/
def loaded (settings : Settings) (files : FileSystem) : Session where
  relinker := ⟨settings.scope, settings.source, some (settings.source.compile files).value⟩
  files := files
  loader := none
  calls := [.pending .ready]
  reads := settings.source.reads files

theorem runs_loaded (settings : Settings) (files : FileSystem) :
    Runs (start settings files) (loaded settings files) :=
  .head (.call _ .ready) (.head (.claim (i := 0) rfl rfl rfl) (runs_of_claimed rfl))

/-- A file that comes after the load has come too late, and one that goes after it is not
missed: the call that was waiting and one that begins then are answered alike. -/
theorem answeredBy_of_runs_elsewhere :
    (elsewhere.source.compile FileSystem.empty).value =
      .error (.manifestUnreadable "/srv/map.json" .notFound) ∧
    (elsewhere.source.compile provided).value = .ok providedRules ∧
    ∀ p ∈ [(FileSystem.empty, provided), (provided, FileSystem.empty)],
      ∃ s : Session, Runs (start elsewhere p.1) (loaded elsewhere p.1) ∧
        Runs (loaded elsewhere p.1) s ∧ s.files = p.2 ∧ s.calls.length = 2 ∧
        s.reads = [p.1.read "/srv/map.json"] ∧
        ∀ c ∈ s.calls, c.IsDone ∧
          c.AnsweredBy Scope.standard (elsewhere.source.compile p.1).value := by
  refine ⟨rfl, rfl, fun p _ => ?_⟩
  -- the files become others, another call begins, and both go on to their ends
  let altered : Session := { loaded elsewhere p.1 with files := p.2 }
  let joined : Session :=
    { altered with calls := [.pending .ready, .pending (.transform (⟨[]⟩ : Document))] }
  have h₁ : Step (loaded elsewhere p.1) altered := .alter _ p.2
  have h₂ : Step altered joined := .call altered _
  have h₃ : Step joined _ := step_done (i := 0) rfl rfl
  have after : Runs (loaded elsewhere p.1) _ :=
    .head h₁ (.head h₂ (.head h₃ (.single (step_done (i := 1) rfl rfl))))
  have before := runs_loaded elsewhere p.1
  obtain ⟨-, keeps, answers, -⟩ := answeredBy_of_runs _ _ before after
  obtain ⟨hm, hr⟩ := keeps _ rfl
  refine ⟨_, before, after, rfl, rfl, hr, fun c hc => ⟨?_, (answers _ hm).2 c hc⟩⟩
  rcases List.mem_cons.1 hc with rfl | hc
  · exact trivial
  · rw [List.mem_singleton.1 hc]
    exact trivial

end Session

end Relink
