import Relink.Manifest.File
import Relink.Relinking
import Relink.Settings.Basic

/-!
# Relinkers

A relinker changes trees by the rules of its settings. The rules are made when
they are first needed: the manifest is loaded, from its file if it is in one, and
compiled, and the outcome is kept. A good outcome is used from then on without
reading the file again; a bad one is answered to every later call in the same
words, whatever has become of the file.

Every call that finds no rules tells so, and leaves its tree as it is.
-/

namespace Relink

namespace ManifestSource

/-- The manifest of a source. Only a file can fail, and has anything to tell. -/
def resolve (files : FileSystem) : ManifestSource → Logged (Except Failure Manifest)
  | .inline m => pure (.ok m)
  | .file path => Manifest.load path files

/-- The rules of a source. -/
def compile (files : FileSystem) (s : ManifestSource) : Logged (Except Failure Rulebook) := do
  match ← s.resolve files with
  | .error failure => pure (.error failure)
  | .ok m =>
    match Rulebook.ofManifest m with
    | .error failure => pure (.error failure)
    | .ok b =>
      Logged.tell (.compiled b.rules.length)
      pure (.ok b)

end ManifestSource

/-- A relinker of trees that remembers its rules. -/
structure Relinker where
  /-- The attributes to look at. -/
  scope : Scope
  /-- Where the manifest comes from. -/
  source : ManifestSource
  /-- What became of loading the rules, once it has been tried. -/
  memo : Option (Except Failure Rulebook)

namespace Relinker

/-- A relinker that has loaded nothing yet. -/
def ofSettings (s : Settings) : Relinker := ⟨s.scope, s.source, none⟩

/-- The rules: those that are remembered, or those that are loaded now. -/
def load (files : FileSystem) (r : Relinker) : Logged (Except Failure Rulebook) :=
  match r.memo with
  | some outcome => pure outcome
  | none => r.source.compile files

/-- Makes sure that loading has been tried, and answers with the outcome. -/
def ready (files : FileSystem) (r : Relinker) : Logged (Except Failure Rulebook × Relinker) := do
  let outcome ← r.load files
  let r := { r with memo := some outcome }
  match outcome with
  | .error failure =>
    Logged.tell (.unavailable failure)
    pure (.error failure, r)
  | .ok b => pure (.ok b, r)

/-- What a call that relinks a tree comes to. -/
structure Outcome (T : Type) where
  /-- The tree, relinked if there was no failure. -/
  tree : T
  /-- Why it was not relinked. -/
  failure : Option Failure

/-- Relinks a tree. -/
def transform {T : Type} [Walkable T] (files : FileSystem) (r : Relinker) (t : T) :
    Logged (Outcome T × Relinker) := do
  let (outcome, r) ← r.ready files
  match outcome with
  | .error failure => pure (⟨t, some failure⟩, r)
  | .ok b =>
    let (t, p) := Relinking.tree b r.scope t
    (⟨(), p.events ++ [.finished p.relinked p.removed]⟩ : Logged Unit)
    pure (⟨t, none⟩, r)

/-! ### What calls come to

The outcome of loading decides about a call, and is kept in either case. -/

section Calls

variable {files : FileSystem} {r : Relinker} {b : Rulebook} {failure : Failure}

theorem value_compile_inline (files : FileSystem) (m : Manifest) :
    ((ManifestSource.inline m).compile files).value = Rulebook.ofManifest m := by
  cases h : Rulebook.ofManifest m <;>
    simp [ManifestSource.compile, ManifestSource.resolve, h]

/-- A relinker that is given its manifest loads the rules of it. -/
theorem value_load_ofSettings_inline (files : FileSystem) (scope : Scope) (m : Manifest) :
    ((ofSettings ⟨scope, .inline m⟩).load files).value = Rulebook.ofManifest m :=
  value_compile_inline files m

theorem ready_of_load_ok (h : (r.load files).value = .ok b) :
    r.ready files = ⟨(.ok b, { r with memo := some (.ok b) }), (r.load files).events⟩ := by
  cases hl : r.load files with
  | mk outcome events =>
    rw [hl] at h
    subst h
    simp [ready, hl, bind, pure]

theorem ready_of_load_error (h : (r.load files).value = .error failure) :
    r.ready files = ⟨(.error failure, { r with memo := some (.error failure) }),
      (r.load files).events ++ [.unavailable failure]⟩ := by
  cases hl : r.load files with
  | mk outcome events =>
    rw [hl] at h
    subst h
    simp [ready, hl, bind, pure, Logged.tell]

variable {T : Type} [Walkable T] (t : T)

theorem transform_of_load_ok (h : (r.load files).value = .ok b) :
    r.transform files t =
      ⟨(⟨(Relinking.tree b r.scope t).1, none⟩, { r with memo := some (.ok b) }),
        (r.load files).events ++ (Relinking.tree b r.scope t).2.events ++
          [.finished (Relinking.tree b r.scope t).2.relinked
            (Relinking.tree b r.scope t).2.removed]⟩ := by
  simp [transform, ready_of_load_ok h, bind, pure]

theorem transform_of_load_error (h : (r.load files).value = .error failure) :
    r.transform files t = ⟨(⟨t, some failure⟩, { r with memo := some (.error failure) }),
      (r.load files).events ++ [.unavailable failure]⟩ := by
  simp [transform, ready_of_load_error h, bind, pure]

end Calls

end Relinker

end Relink
