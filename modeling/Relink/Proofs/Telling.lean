import Relink.Proofs.Session
import Relink.Proofs.Stable

/-!
# What is told

All that happens is told as an event: in the readers of a manifest file, where rules are
made of it, where the outcome is kept, and at every attribute that is changed. Here it is
shown that what is told is true and complete (`Relinker.events_after`), for calls made one
after the other.

The events of a load are told by the call that loads, which is the first one, and in the
order in which a load proceeds (`ManifestSource.LoadTells`). A call that finds a failure
tells of it once, in the words of the first. A call that relinks a document tells of
each attribute that a rule was applied to, and the event can be made out from the
attribute before and after (`Rulebook.told`): it names the rule that is the first to accept
the old value, and it says what is there now. That the two agree has to be proved, since the
event is told in the middle of the walk and the document is looked at in the end; again it
rests on no name being listed twice.
-/

namespace Relink

/-! ### What a load tells -/

namespace Manifest

/-- What is told of the members of a manifest file: which of them had to be unwrapped. -/
def unwrapTold (members : Entries Json) : List Event :=
  members.filterMap fun e => (wrapped? e.2).map (Event.unwrapped e.1)

/-- What is told when rules are made of a manifest: how many entries it has, if it has
rules. -/
def compileTold (m : Manifest) : List Event :=
  match Rulebook.ofManifest m with
  | .ok _ => [.compiled m.size]
  | .error _ => []

theorem events_unwrap (members : Entries Json) :
    (unwrap members).events = unwrapTold members := by
  induction members with
  | nil => rfl
  | cons e es ih =>
    rw [unwrapTold] at ih ⊢
    rcases h : wrapped? e.2 with _ | s
    · simp [unwrap, h, ih]
    · simp [unwrap, h, ih]

/-- There are as many rules as there are entries. -/
theorem length_rules {m : Manifest} {b : Rulebook} (h : Rulebook.ofManifest m = .ok b) :
    b.rules.length = m.size := by
  have hl := congrArg List.length (Rulebook.ofManifest_eq_ok_iff.1 h)
  rwa [List.length_map, List.length_map] at hl

end Manifest

namespace ManifestSource

/-- **What a load tells**, by what it comes to: first which entries of the file had to be
unwrapped, then that the file has been read, then that rules have been made. -/
inductive LoadTells (files : FileSystem) :
    ManifestSource → List Event → Except Failure Rulebook → Prop
  /-- A manifest that is given only has to be compiled. -/
  | given (m : Manifest) : LoadTells files (.inline m) m.compileTold (Rulebook.ofManifest m)
  /-- Of a file that cannot be read nothing is told. -/
  | unreadable {path : FilePath} {fault : ReadFault} (read : files.read path = .error fault) :
      LoadTells files (.file path) [] (.error (.manifestUnreadable path fault))
  /-- Nor is anything of a file that is not an object. -/
  | malformed {path : FilePath} {bytes : Bytes} {fault : Json.Fault}
      (read : files.read path = .ok bytes)
      (object : Json.readAll Manifest.readMembers bytes = .error fault) :
      LoadTells files (.file path) [] (.error (.manifestMalformed path fault))
  /-- Entries have been unwrapped by the time a value turns out to be no replacement. -/
  | refused {path : FilePath} {bytes : Bytes} {members : Entries Json} {failure : Failure}
      (read : files.read path = .ok bytes)
      (object : Json.readAll Manifest.readMembers bytes = .ok members)
      (refused : Manifest.ofMembers (Manifest.unwrap members).value = .error failure) :
      LoadTells files (.file path) (Manifest.unwrapTold members) (.error failure)
  /-- The manifest of a file has been read by the time its rules are made. -/
  | read {path : FilePath} {bytes : Bytes} {members : Entries Json} {m : Manifest}
      (read : files.read path = .ok bytes)
      (object : Json.readAll Manifest.readMembers bytes = .ok members)
      (manifest : Manifest.ofMembers (Manifest.unwrap members).value = .ok m) :
      LoadTells files (.file path)
        (Manifest.unwrapTold members ++ .loaded path m.size :: m.compileTold)
        (Rulebook.ofManifest m)

variable {files : FileSystem} {s : ManifestSource}

theorem compile_of_resolve_error {failure : Failure} {events : List Event}
    (h : s.resolve files = ⟨.error failure, events⟩) :
    s.compile files = ⟨.error failure, events⟩ := by
  simp [compile, h, bind, pure]

theorem compile_of_resolve_ok {m : Manifest} {events : List Event}
    (h : s.resolve files = ⟨.ok m, events⟩) :
    s.compile files = ⟨Rulebook.ofManifest m, events ++ m.compileTold⟩ := by
  rcases hb : Rulebook.ofManifest m with failure | b
  · simp [compile, h, hb, Manifest.compileTold, bind, pure]
  · simp [compile, h, hb, Manifest.compileTold, Manifest.length_rules hb, Logged.tell, bind, pure]

/-- Rules are always made of a manifest. -/
theorem LoadTells.exists_manifest {events : List Event} {b : Rulebook}
    (h : s.LoadTells files events (.ok b)) : ∃ m, Rulebook.ofManifest m = .ok b := by
  generalize ho : Except.ok b = outcome at h
  cases h with
  | given m => exact ⟨m, rfl⟩
  | read _ _ _ => exact ⟨_, rfl⟩
  | unreadable => cases ho
  | malformed => cases ho
  | refused => cases ho

/-- A load tells what it should. -/
theorem loadTells_compile (files : FileSystem) (s : ManifestSource) :
    s.LoadTells files (s.compile files).events (s.compile files).value := by
  rcases s with m | path
  · have hr : (ManifestSource.inline m).resolve files = ⟨.ok m, []⟩ := rfl
    rw [compile_of_resolve_ok hr, List.nil_append]
    exact .given m
  rcases hread : files.read path with fault | bytes
  · have hr : (ManifestSource.file path).resolve files =
        ⟨.error (.manifestUnreadable path fault), []⟩ := by
      simp only [resolve, Manifest.load, hread, pure]
    rw [compile_of_resolve_error hr]
    exact .unreadable hread
  rcases hobject : Json.readAll Manifest.readMembers bytes with fault | members
  · have hr : (ManifestSource.file path).resolve files =
        ⟨.error (.manifestMalformed path fault), []⟩ := by
      simp [resolve, Manifest.load, hread, Manifest.parse, hobject, bind, pure]
    rw [compile_of_resolve_error hr]
    exact .malformed hread hobject
  rcases hm : Manifest.ofMembers (Manifest.unwrap members).value with failure | m
  · have hr : (ManifestSource.file path).resolve files =
        ⟨.error failure, Manifest.unwrapTold members⟩ := by
      simp [resolve, Manifest.load, hread, Manifest.parse, hobject, hm, bind, pure,
        Manifest.events_unwrap]
    rw [compile_of_resolve_error hr]
    exact .refused hread hobject hm
  · have hr : (ManifestSource.file path).resolve files =
        ⟨.ok m, Manifest.unwrapTold members ++ [.loaded path m.size]⟩ := by
      simp [resolve, Manifest.load, hread, Manifest.parse, hobject, hm, bind, pure,
        Manifest.events_unwrap, Logged.tell]
    rw [compile_of_resolve_ok hr, List.append_assoc]
    exact .read hread hobject hm

end ManifestSource

/-! ### What is told of attributes -/

namespace Event

/-- The event tells of an attribute that got a value. -/
def isRelinked : Event → Bool
  | .relinked .. => true
  | _ => false

/-- The event tells of an attribute that was removed. -/
def isRemoved : Event → Bool
  | .removed .. => true
  | _ => false

end Event

namespace Rulebook

/-- **What is told of an attribute** that was on the first start tag, when the second one
is what has become of it: if a rule is the first to accept its value, and the value was not
empty, that the attribute got the value that it has now, or that it was removed, as it is
gone. -/
def told (b : Rulebook) (s s' : StartTag) (name : String) : Option Event :=
  match s.get? name with
  | none => none
  | some value =>
    if value = "" then none
    else (b.find? value).map fun rule =>
      match s'.get? name with
      | some value' => .relinked s.name name rule.path value'
      | none => .removed s.name name rule.path

/-- What is told of the listed attributes of an element, in the order of the list. -/
def toldOf (b : Rulebook) (scope : Scope) (s s' : StartTag) : List Event :=
  (scope.listed s.name).filterMap (b.told s s')

/-- What is told of the elements of a document, in document order. -/
def toldIn (b : Rulebook) (scope : Scope) (d d' : Document) : List Event :=
  (d.startTags.zip d'.startTags).flatMap fun p => b.toldOf scope p.1 p.2

variable {b : Rulebook} {s s₁ s₂ : StartTag} {n : String}

theorem told_congr_left (hname : s₁.name = s₂.name) (hget : s₁.get? n = s₂.get? n) :
    b.told s₁ s n = b.told s₂ s n := by
  simp only [told, hname, hget]

theorem told_congr_right (hget : s₁.get? n = s₂.get? n) : b.told s s₁ n = b.told s s₂ n := by
  simp only [told, hget]

end Rulebook

namespace Progress

/-- Events have been told between two times, and they have been counted. -/
structure Tells (p : Progress) (es : List Event) (p' : Progress) : Prop where
  /-- These are the events. -/
  events : p'.events = p.events ++ es
  /-- Those of attributes that got a value count as such. -/
  relinked : p'.relinked = p.relinked + es.countP Event.isRelinked
  /-- Those of attributes that were removed count as such. -/
  removed : p'.removed = p.removed + es.countP Event.isRemoved

variable {p p₁ p₂ : Progress} {es₁ es₂ : List Event}

theorem Tells.nil : p.Tells [] p := ⟨(List.append_nil _).symm, rfl, rfl⟩

theorem Tells.append (h₁ : p.Tells es₁ p₁) (h₂ : p₁.Tells es₂ p₂) :
    p.Tells (es₁ ++ es₂) p₂ where
  events := by rw [h₂.events, h₁.events, List.append_assoc]
  relinked := by rw [h₂.relinked, h₁.relinked, List.countP_append, Nat.add_assoc]
  removed := by rw [h₂.removed, h₁.removed, List.countP_append, Nat.add_assoc]

theorem Tells.from_start (h : start.Tells es₁ p) :
    p.events = es₁ ∧ p.relinked = es₁.countP Event.isRelinked ∧
      p.removed = es₁.countP Event.isRemoved :=
  ⟨h.events, h.relinked.trans (Nat.zero_add _), h.removed.trans (Nat.zero_add _)⟩

end Progress

namespace Relinking

variable {b : Rulebook} {s : StartTag} {n k : String} {p : Progress}

/-! A visit to one attribute concerns no other. -/

theorem get?_listed_of_ne (h : k ≠ n) : (listed b s p n).1.get? k = s.get? k := by
  unfold listed StartTag.relink
  split
  · rfl
  · split
    · rfl
    · split
      · rfl
      · split
        · simp
        · split <;> simp [StartTag.get?_set, StartTag.get?_remove, Ne.symm h]

theorem name_listed : (listed b s p n).1.name = s.name := by
  unfold listed StartTag.relink
  split
  · rfl
  · split
    · rfl
    · split
      · rfl
      · split
        · rfl
        · split <;> simp

theorem get?_allListed_of_notMem {names : List String} (h : k ∉ names) :
    (allListed b names s p).1.get? k = s.get? k := by
  induction names generalizing s p with
  | nil => rfl
  | cons n names ih =>
    rw [List.mem_cons, not_or] at h
    exact (ih h.2).trans (get?_listed_of_ne h.1)

/-- A visit to one attribute tells what has become of it. -/
theorem listed_tells : p.Tells (b.told s (listed b s p n).1 n).toList (listed b s p n).2 := by
  rcases hget : s.get? n with _ | value
  · simp only [listed, Rulebook.told, hget]
    exact .nil
  by_cases hempty : value = ""
  · simp only [listed, Rulebook.told, hget, if_pos hempty]
    exact .nil
  rcases hfind : b.find? value with _ | rule
  · simp only [listed, StartTag.relink, Rulebook.told, hget, if_neg hempty, hfind]
    exact ⟨by simp, rfl, rfl⟩
  rcases haction : rule.action with r | _
  · simp only [listed, StartTag.relink, Rulebook.told, hget, if_neg hempty, hfind, haction,
      StartTag.get?_set]
    exact ⟨by simp, rfl, rfl⟩
  · simp only [listed, StartTag.relink, Rulebook.told, hget, if_neg hempty, hfind, haction,
      StartTag.get?_remove]
    exact ⟨by simp, rfl, rfl⟩

/-- When no name is listed twice, what is told of each attribute is still true after the
visits to the others. -/
theorem allListed_tells {names : List String} (h : names.Nodup) :
    p.Tells (names.filterMap (b.told s (allListed b names s p).1)) (allListed b names s p).2 := by
  induction names generalizing s p with
  | nil => exact .nil
  | cons n names ih =>
    rw [List.nodup_cons] at h
    let last := (allListed b (n :: names) s p).1
    have hfirst : b.told s (listed b s p n).1 n = b.told s last n :=
      Rulebook.told_congr_right (get?_allListed_of_notMem h.1).symm
    have hrest : names.filterMap (b.told (listed b s p n).1 last) =
        names.filterMap (b.told s last) := by
      refine List.filterMap_congr fun k hk => Rulebook.told_congr_left name_listed ?_
      exact get?_listed_of_ne fun he => h.1 (he ▸ hk)
    have htells : p.Tells ((b.told s (listed b s p n).1 n).toList ++
        names.filterMap (b.told (listed b s p n).1 last)) (allListed b (n :: names) s p).2 :=
      listed_tells.append (ih h.2)
    rw [hfirst, hrest] at htells
    rw [List.filterMap_cons]
    cases ht : b.told s last n with
    | none =>
      rw [ht] at htells
      exact htells
    | some e =>
      rw [ht] at htells
      exact htells

/-- A visit to an element tells what has become of its listed attributes. -/
theorem visitor_tells {scope : Scope} {f : StartTag → Attributes}
    (h : ∀ s p, (visitor b scope s p).1 = f s) :
    p.Tells (b.toldOf scope s (s.changed f)) (visitor b scope s p).2 := by
  have hs := h s p
  rcases hnames : scope.attributes? s.name with _ | names
  · simp only [Rulebook.toldOf, Scope.listed, visitor, hnames]
    exact .nil
  · simp only [visitor, hnames] at hs
    have hlisted : scope.listed s.name = names := by simp [Scope.listed, hnames]
    have hnodup : names.Nodup := hlisted ▸ scope.nodup_listed s.name
    have hlast : b.told s (s.changed f) = b.told s (allListed b names s p).1 := by
      funext n
      exact Rulebook.told_congr_right (congrArg (Table.get? · n) hs.symm)
    rw [Rulebook.toldOf, hlisted, hlast]
    simp only [visitor, hnames]
    exact allListed_tells hnodup

/-- Visits to several elements tell what has become of each. -/
theorem foldl_visitor_tells {scope : Scope} {f : StartTag → Attributes}
    (h : ∀ s p, (visitor b scope s p).1 = f s) (tags : List StartTag) (p : Progress) :
    p.Tells ((tags.zip (tags.map (StartTag.changed f))).flatMap fun q => b.toldOf scope q.1 q.2)
      (tags.foldl (fun p s => (visitor b scope s p).2) p) := by
  induction tags generalizing p with
  | nil => exact .nil
  | cons s tags ih => exact (visitor_tells h).append (ih _)

/-- Relinking a document tells what has become of its elements. -/
theorem tree_tells {m : Manifest} (hm : Rulebook.ofManifest m = .ok b) (scope : Scope)
    (d : Document) :
    Progress.start.Tells (b.toldIn scope d (tree b scope d).1) (tree b scope d).2 := by
  have hvisit := Manifest.visitor_fst hm scope
  rw [tree, Document.walk_eq_mapTags hvisit, Rulebook.toldIn, Document.startTags_mapTags]
  exact foldl_visitor_tells hvisit d.startTags Progress.start

/-- Relinking changes nothing but attributes. -/
theorem outline_tree {m : Manifest} (hm : Rulebook.ofManifest m = .ok b) (scope : Scope)
    (d : Document) : (tree b scope d).1.outline = d.outline := by
  rw [(tree_document hm scope d).1, Document.outline, Document.mapTags_mapTags]
  rfl

end Relinking

/-! ### What calls tell -/

namespace Relinker

/-- A relinker after some calls, each with the files as they are at the time. -/
def after (r : Relinker) (calls : List (FileSystem × Task)) : Relinker :=
  calls.foldl (fun r c => (c.2.run c.1 r).value.2) r

variable {r : Relinker} {o : Except Failure Rulebook}

/-- Nothing changes any more once there is an outcome. -/
theorem after_of_memo (h : r.memo = some o) (calls : List (FileSystem × Task)) :
    r.after calls = r := by
  induction calls with
  | nil => rfl
  | cons c calls ih =>
    have hrun : (c.2.run c.1 r).value.2 = r := by
      rw [Task.value_run, load_of_memo c.1 h, Logged.value_pure, ← h]
    rw [after, List.foldl_cons, hrun]
    exact ih

/-- The first call decides about the outcome. -/
theorem after_ofSettings (settings : Settings) (calls : List (FileSystem × Task)) :
    (ofSettings settings).after calls =
      ⟨settings.scope, settings.source,
        calls.head?.map fun c => (settings.source.compile c.1).value⟩ := by
  cases calls with
  | nil => rfl
  | cons c calls =>
    rw [after, List.foldl_cons, Task.value_run]
    exact after_of_memo rfl calls

/-- **What is told is true and complete.** After any calls, in the next one:

* what is told of loading is what a load of the source tells, with the files of the first
  call, and it is told in the first call only;
* if the load has failed, whoever calls is told so once, in the same words each time, and
  of nothing else;
* if it has not, a call that relinks a document tells, in document order, of every listed
  attribute that was not empty and had a value that a rule accepts what it is now, of no
  other attribute anything, and in the end how many it has told of. -/
theorem events_after (settings : Settings) (before : List (FileSystem × Task)) (files : FileSystem) :
    let r := (ofSettings settings).after before
    ∃ events outcome,
      settings.source.LoadTells ((before.head?.map Prod.fst).getD files) events outcome ∧
      let loading := if before.isEmpty then events else []
      match outcome with
      | .error failure =>
        r.ready files = ⟨(.error failure, { r with memo := some outcome }),
          loading ++ [.unavailable failure]⟩ ∧
        ∀ d : Document,
          (r.transform files d).value.1 = ⟨d, some failure⟩ ∧
          (r.transform files d).events = loading ++ [.unavailable failure]
      | .ok b =>
        r.ready files = ⟨(.ok b, { r with memo := some outcome }), loading⟩ ∧
        ∀ d : Document,
          let d' := (r.transform files d).value.1.tree
          let changes := b.toldIn settings.scope d d'
          (r.transform files d).value.1.failure = none ∧ d'.outline = d.outline ∧
          (r.transform files d).events = loading ++ changes ++
            [.finished (changes.countP Event.isRelinked) (changes.countP Event.isRemoved)] := by
  intro r
  have hr : r = _ := after_ofSettings settings before
  let first := (before.head?.map Prod.fst).getD files
  have hload : (r.load files).value = (settings.source.compile first).value ∧
      (r.load files).events =
        if before.isEmpty then (settings.source.compile first).events else [] := by
    rw [hr]
    cases before <;> exact ⟨rfl, rfl⟩
  have htells := ManifestSource.loadTells_compile first settings.source
  refine ⟨_, _, htells, ?_⟩
  rcases ho : (settings.source.compile first).value with failure | b
  · rw [ho] at hload
    refine ⟨by rw [ready_of_load_error hload.1, hload.2], fun d => ?_⟩
    rw [transform_of_load_error d hload.1, hload.2]
    exact ⟨rfl, rfl⟩
  · rw [ho] at hload htells
    obtain ⟨m, hm⟩ := htells.exists_manifest
    refine ⟨by rw [ready_of_load_ok hload.1, hload.2], fun d => ?_⟩
    have hscope : r.scope = settings.scope := by rw [hr]
    obtain ⟨hevents, hrelinked, hremoved⟩ := (Relinking.tree_tells hm settings.scope d).from_start
    rw [transform_of_load_ok d hload.1, hload.2, hscope, hevents, hrelinked, hremoved]
    exact ⟨rfl, Relinking.outline_tree hm settings.scope d, rfl⟩

end Relinker

end Relink
