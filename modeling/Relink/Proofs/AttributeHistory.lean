import Mathlib.Data.List.Basic
import Mathlib.Data.List.Pairwise
import Relink.Relinking

/-!
# Attributes by their history

An attribute is set, set again, removed, set once more, and relinked in between. What an
element has in the end can be told from what was done to it (`Relink.Element.edits_tell`):
under each name the value that was written last, unless the name has been removed since,
and the names in the order in which each was first written after its last removal. A name
that comes back stands behind all that stayed.

Setting and removing do the same whatever the element has, but relinking looks at it. What
it does is nevertheless told from the history alone (`Edit.stroke?`): it writes or removes
by the first rule that accepts the value that the history has for its name. So the history
of an element is a list of *strokes*, values written and names removed, and the proof is
that each stroke does to the attributes what it does to the history
(`Relink.StartTag.Tells.stroke`).
-/

namespace Relink

/-! ### Entries but one -/

namespace Entries

variable {α : Type}

/-- What is written under a key makes no difference to the other entries. -/
theorem drop_put (es : Entries α) (k : String) (v : α) : drop (put es k v) k = drop es k := by
  induction es with
  | nil => simp [put, drop]
  | cons e es ih =>
    simp only [drop] at ih ⊢
    by_cases h : e.1 = k <;> simp [put, h, ih]

theorem drop_drop (es : Entries α) (k : String) : drop (drop es k) k = drop es k := by
  simp [drop, List.filter_filter]

end Entries

/-! ### Strokes -/

/-- One thing that is done to an attribute: a value is written under a name, or, if there is
none, the name is removed. -/
structure Stroke where
  /-- The name. -/
  name : String
  /-- The value that is written. -/
  value : Option String
deriving DecidableEq

namespace Stroke

/-- **The value that was last written under a name** since the name was last removed; the
latest stroke comes first. -/
def written? : List Stroke → String → Option String
  | [], _ => none
  | x :: xs, n => if x.name = n then x.value else written? xs n

/-- **When a name was first written** since it was last removed: how many strokes came
before. To write it again while it is there makes it no younger. -/
def since? : List Stroke → String → Option Nat
  | [], _ => none
  | x :: xs, n =>
    if x.name = n then x.value.map fun _ => (since? xs n).getD xs.length else since? xs n

/-- Both names are there, and the one has been so for longer than the other. -/
def Older (xs : List Stroke) (m n : String) : Prop :=
  ∃ i j, since? xs m = some i ∧ since? xs n = some j ∧ i < j

/-- Does the stroke to a start tag. -/
def onTag (x : Stroke) (s : StartTag) : StartTag :=
  match x.value with
  | some v => s.set x.name v
  | none => s.remove x.name

variable {x : Stroke} {xs : List Stroke} {m n : String} {i : Nat}

theorem isSome_since? (xs : List Stroke) (n : String) :
    (since? xs n).isSome = (written? xs n).isSome := by
  induction xs with
  | nil => rfl
  | cons x xs ih =>
    rw [since?, written?]
    by_cases hn : x.name = n
    · rw [if_pos hn, if_pos hn, Option.isSome_map]
    · rw [if_neg hn, if_neg hn, ih]

theorem since?_lt (h : since? xs n = some i) : i < xs.length := by
  induction xs generalizing i with
  | nil => cases h
  | cons x xs ih =>
    rw [since?] at h
    rw [List.length_cons]
    split at h
    · obtain ⟨-, -, rfl⟩ := Option.map_eq_some_iff.1 h
      rcases hs : since? xs n with _ | j
      · simp
      · have := ih hs
        simp only [Option.getD_some]
        omega
    · have := ih h
      omega

/-- A name that is there is no younger for a stroke that does not remove it. -/
theorem since?_cons (h : since? xs n = some i) (hx : x.name = n → x.value ≠ none) :
    since? (x :: xs) n = some i := by
  rw [since?]
  split
  · next hn =>
    obtain ⟨v, hv⟩ := Option.ne_none_iff_exists'.1 (hx hn)
    rw [hv, h]
    rfl
  · exact h

theorem Older.cons (h : Older xs m n) (hm : x.name = m → x.value ≠ none)
    (hn : x.name = n → x.value ≠ none) : Older (x :: xs) m n := by
  obtain ⟨i, j, hi, hj, hij⟩ := h
  exact ⟨i, j, since?_cons hi hm, since?_cons hj hn, hij⟩

/-- A stroke leaves everything but its own name as it is. -/
theorem drop_onTag (x : Stroke) (s : StartTag) :
    Entries.drop (x.onTag s).attributes.entries x.name =
      Entries.drop s.attributes.entries x.name := by
  rcases x with ⟨n, _ | v⟩
  · exact Entries.drop_drop s.attributes.entries n
  · exact Entries.drop_put s.attributes.entries n v

theorem name_onTag (x : Stroke) (s : StartTag) : (x.onTag s).name = s.name := by
  rcases x with ⟨n, _ | v⟩ <;> rfl

theorem Older.ne (h : Older xs m n) : m ≠ n := by
  rintro rfl
  obtain ⟨i, j, hi, hj, hij⟩ := h
  rw [hi] at hj
  cases hj
  omega

end Stroke

/-! ### What a history tells -/

namespace StartTag

open Stroke

/-- **A history tells the attributes of a start tag**: their values, and the order in which
they stand. -/
structure Tells (xs : List Stroke) (s : StartTag) : Prop where
  /-- Under each name there is the value that was last written. -/
  get? : ∀ n, s.get? n = written? xs n
  /-- The names stand in the order of their age. -/
  order : s.attributes.keys.Pairwise (Older xs)

variable {xs : List Stroke} {s : StartTag} {n v : String}

theorem tells_named (name : String) : Tells [] (named name) := ⟨fun _ => rfl, .nil⟩

theorem Tells.mem_keys_iff (h : Tells xs s) :
    n ∈ s.attributes.keys ↔ (since? xs n).isSome := by
  rw [isSome_since?, ← h.get? n, Option.isSome_iff_ne_none]
  exact Table.get?_ne_none_iff.symm

/-- To write a name keeps the names in the order of their age. -/
theorem Tells.set (h : Tells xs s) (n v : String) : Tells (⟨n, some v⟩ :: xs) (s.set n v) where
  get? m := by
    rw [get?_set, h.get? m]
    rfl
  order := by
    have hstay : s.attributes.keys.Pairwise (Older (⟨n, some v⟩ :: xs)) :=
      h.order.imp fun hmn => hmn.cons (by simp) (by simp)
    have hkeys : (s.set n v).attributes.keys =
        if n ∈ s.attributes.keys then s.attributes.keys else s.attributes.keys ++ [n] :=
      Entries.keys_put s.attributes.entries n v
    rw [hkeys]
    split
    · exact hstay
    · next hn =>
      -- a new name is the youngest of all
      refine List.pairwise_append.2 ⟨hstay, List.pairwise_singleton _ n, fun m hm k hk => ?_⟩
      obtain rfl := List.mem_singleton.1 hk
      rw [h.mem_keys_iff] at hm hn
      obtain ⟨i, hi⟩ := Option.isSome_iff_exists.1 hm
      have hnone : since? xs k = none := by simpa using hn
      refine ⟨i, xs.length, since?_cons hi (by simp), ?_, since?_lt hi⟩
      simp [since?, hnone]

/-- To remove a name keeps the others in the order of their age. -/
theorem Tells.remove (h : Tells xs s) (n : String) : Tells (⟨n, none⟩ :: xs) (s.remove n) where
  get? m := by
    rw [get?_remove, h.get? m]
    rfl
  order := by
    have hkeys : (s.remove n).attributes.keys = s.attributes.keys.filter (· != n) :=
      Entries.keys_drop s.attributes.entries n
    rw [hkeys]
    refine (h.order.filter _).imp_of_mem fun {m k} hm hk hmk => ?_
    have hne : ∀ j ∈ s.attributes.keys.filter (· != n), n ≠ j := by
      rintro j hj rfl
      simpa using (List.mem_filter.1 hj).2
    exact hmk.cons (fun he => absurd he (hne m hm)) fun he => absurd he (hne k hk)

/-- **A stroke does to the attributes what it does to the history.** -/
theorem Tells.stroke (h : Tells xs s) (x : Stroke) : Tells (x :: xs) (x.onTag s) := by
  rcases x with ⟨n, _ | v⟩
  · exact h.remove n
  · exact h.set n v

end StartTag

/-! ### Edits -/

/-- One call that edits an attribute of an element. -/
inductive Edit where
  /-- A value is set. -/
  | set (name value : String)
  /-- The attribute is removed. -/
  | remove (name : String)
  /-- The attribute is relinked by the rules of a rulebook. -/
  | relink (book : Rulebook) (name : String)

namespace Edit

/-- The name of the attribute. -/
def name : Edit → String
  | .set n _ => n
  | .remove n => n
  | .relink _ n => n

/-- The start tag after an edit. -/
def onTag (s : StartTag) : Edit → StartTag
  | .set n v => s.set n v
  | .remove n => s.remove n
  | .relink b n => (s.relink b n).value.2

/-- **The stroke that an edit makes**, if it makes any, given the values that there are.
Relinking makes the stroke of the first rule that accepts the value. -/
def stroke? (value? : String → Option String) : Edit → Option Stroke
  | .set n v => some ⟨n, some v⟩
  | .remove n => some ⟨n, none⟩
  | .relink b n =>
    ((value? n).bind b.find?).map fun rule =>
      match rule.action with
      | .replace v => ⟨n, some v⟩
      | .remove => ⟨n, none⟩

/-- The history after an edit. -/
def record (xs : List Stroke) (d : Edit) : List Stroke :=
  (d.stroke? (Stroke.written? xs)).toList ++ xs

/-- **The history that edits leave**, the latest stroke first. -/
def history (ds : List Edit) : List Stroke := ds.foldl record []

/-- An edit is its stroke, and nothing if it makes none. -/
theorem onTag_eq (s : StartTag) (d : Edit) :
    d.onTag s = (d.stroke? s.get?).elim s fun x => x.onTag s := by
  cases d with
  | set n v => rfl
  | remove n => rfl
  | relink b n =>
    rcases hv : s.get? n with _ | v
    · simp [onTag, stroke?, StartTag.relink, hv]
    · rcases hf : b.find? v with _ | rule
      · simp [onTag, stroke?, StartTag.relink, hv, hf]
      · cases ha : rule.action <;>
          simp [onTag, stroke?, StartTag.relink, hv, hf, ha, Stroke.onTag]

theorem name_of_stroke? {value? : String → Option String} {d : Edit} {x : Stroke}
    (h : d.stroke? value? = some x) : x.name = d.name := by
  cases d with
  | set n v =>
    cases h
    rfl
  | remove n =>
    cases h
    rfl
  | relink b n =>
    obtain ⟨rule, -, rfl⟩ := Option.map_eq_some_iff.1 h
    cases rule.action <;> rfl

/-- **An edit goes into the history with what it does.** -/
theorem tells_onTag {xs : List Stroke} {s : StartTag} (h : s.Tells xs) (d : Edit) :
    (d.onTag s).Tells (d.record xs) := by
  -- relinking looks at the value that the history has
  have hvalues : s.get? = Stroke.written? xs := funext h.get?
  rw [onTag_eq, record, hvalues]
  cases d.stroke? (Stroke.written? xs) with
  | none => exact h
  | some x => exact h.stroke x

/-- An edit leaves the other attributes as they are, and so their order. -/
theorem drop_onTag (d : Edit) (s : StartTag) :
    Entries.drop (d.onTag s).attributes.entries d.name =
      Entries.drop s.attributes.entries d.name := by
  rw [onTag_eq]
  rcases hx : d.stroke? s.get? with _ | x
  · rfl
  · rw [← name_of_stroke? hx]
    exact x.drop_onTag s

theorem name_onTag (d : Edit) (s : StartTag) : (d.onTag s).name = s.name := by
  rw [onTag_eq]
  cases d.stroke? s.get? with
  | none => rfl
  | some x => exact x.name_onTag s

end Edit

namespace StartTag

variable {b : Rulebook} {s : StartTag} {n : String}

/-- Relinking adds no name. -/
theorem keys_relink_sublist (b : Rulebook) (s : StartTag) (n : String) :
    (s.relink b n).value.2.attributes.keys.Sublist s.attributes.keys := by
  rcases hv : s.get? n with _ | v
  · simp [relink, hv]
  · have hmem : n ∈ s.attributes.keys :=
      Table.get?_ne_none_iff.1 (Option.ne_none_iff_exists'.2 ⟨v, hv⟩)
    have hset (r : String) : (s.set n r).attributes.keys = s.attributes.keys :=
      (Entries.keys_put s.attributes.entries n r).trans (if_pos hmem)
    have hremove : (s.remove n).attributes.keys.Sublist s.attributes.keys := by
      have hkeys : (s.remove n).attributes.keys = s.attributes.keys.filter (· != n) :=
        Entries.keys_drop s.attributes.entries n
      rw [hkeys]
      exact List.filter_sublist
    rcases hf : b.find? v with _ | rule
    · simp [relink, hv, hf]
    · cases ha : rule.action with
      | replace r => simp [relink, hv, hf, ha, hset]
      | remove => simpa [relink, hv, hf, ha] using hremove

/-- Relinking tells that nothing was done exactly if there is nothing that it could do. -/
theorem relink_eq_unchanged_iff :
    (s.relink b n).value.1 = .unchanged ↔
      s.get? n = none ∨ ∃ v, s.get? n = some v ∧ ∀ r ∈ b.rules, r.accepts v = false := by
  rcases hv : s.get? n with _ | v
  · simp [relink, hv]
  · rcases hf : b.find? v with _ | rule
    · have hnone : ∀ r ∈ b.rules, r.accepts v = false := by
        simpa [Rulebook.find?] using hf
      simpa [relink, hv, hf] using hnone
    · have haccepts : rule.accepts v = true := by simpa using List.find?_some hf
      have hmem : rule ∈ b.rules := List.mem_of_find?_eq_some hf
      have hsome : ¬∀ r ∈ b.rules, r.accepts v = false := fun hall => by
        rw [hall rule hmem] at haccepts
        cases haccepts
      cases ha : rule.action <;> simpa [relink, hv, hf, ha] using hsome

end StartTag

/-! ### Elements -/

namespace Element

/-- The element after an edit. -/
def edit (e : Element) (d : Edit) : Element := ⟨d.onTag e.start, e.children⟩

/-- The edits of an element go into its history one after the other. -/
theorem tells_foldl_edit {xs : List Stroke} (ds : List Edit) (e : Element)
    (h : e.start.Tells xs) :
    (ds.foldl edit e).start.Tells (ds.foldl Edit.record xs) := by
  induction ds generalizing xs e with
  | nil => exact h
  | cons d ds ih => exact ih (e.edit d) (Edit.tells_onTag h d)

theorem foldl_edit_name (ds : List Edit) (e : Element) :
    (ds.foldl edit e).start.name = e.start.name := by
  induction ds generalizing e with
  | nil => rfl
  | cons d ds ih => exact (ih (e.edit d)).trans (d.name_onTag e.start)

theorem foldl_edit_children (ds : List Edit) (e : Element) :
    (ds.foldl edit e).children = e.children := by
  induction ds generalizing e with
  | nil => rfl
  | cons d ds ih => exact ih (e.edit d)

/-- **What an element has can be told from its edits.** Of an element that began without
attributes, each name has the value of its last stroke, the names are distinct and stand by
their age, and nothing else has changed. An edit keeps the other attributes, their values
and their order; relinking adds no name, and tells that it did nothing exactly if the
attribute is missing or no rule accepts its value. -/
theorem edits_tell :
    (∀ (name : String) (children : List Node) (ds : List Edit),
      let e := ds.foldl edit ⟨.named name, children⟩
      e.start.attributes.keys.Nodup ∧
        (∀ n, e.start.get? n = Stroke.written? (Edit.history ds) n) ∧
        e.start.attributes.keys.Pairwise (Stroke.Older (Edit.history ds)) ∧
        e.start.name = name ∧ e.children = children) ∧
    (∀ (e : Element) (d : Edit),
      ((e.edit d).start.attributes.entries.filter (·.1 != d.name) =
          e.start.attributes.entries.filter (·.1 != d.name)) ∧
        (e.edit d).start.name = e.start.name ∧ (e.edit d).children = e.children) ∧
    ∀ (b : Rulebook) (s : StartTag) (n : String),
      (s.relink b n).value.2.attributes.keys.Sublist s.attributes.keys ∧
        ((s.relink b n).value.1 = .unchanged ↔
          s.get? n = none ∨
            ∃ v, s.get? n = some v ∧ ∀ r ∈ b.rules, r.accepts v = false) := by
  refine ⟨fun name children ds => ?_, fun e d => ?_, fun b s n => ?_⟩
  · intro e
    have htells : e.start.Tells (Edit.history ds) :=
      tells_foldl_edit ds ⟨.named name, children⟩ (StartTag.tells_named name)
    refine ⟨?_, htells.get?, htells.order, ?_, ?_⟩
    · -- no name is older than itself
      exact htells.order.imp Stroke.Older.ne
    · exact foldl_edit_name ds ⟨.named name, children⟩
    · exact foldl_edit_children ds ⟨.named name, children⟩
  · exact ⟨d.drop_onTag e.start, d.name_onTag e.start, rfl⟩
  · exact ⟨StartTag.keys_relink_sublist b s n, StartTag.relink_eq_unchanged_iff⟩

/-- Rules that replace a value and remove its replacement. -/
def twoSteps : Rulebook :=
  ⟨[⟨"a.js", .replace "b.js", by decide⟩, ⟨"b.js", .remove, by decide⟩]⟩

/-- An attribute is set before another, relinked until it is gone, and set again. -/
def comeBack : List Edit :=
  [.set "src" "a.js", .set "id" "x", .relink twoSteps "src", .relink twoSteps "id",
    .relink twoSteps "src", .set "src" "c.js"]

/-- The attribute that came back has its new value and stands last. -/
theorem edits_tell_comeBack :
    let e := comeBack.foldl edit ⟨.named "script", []⟩
    e.start.get? "src" = some "c.js" ∧ e.start.attributes.keys = ["id", "src"] ∧
      Stroke.Older (Edit.history comeBack) "id" "src" ∧
      (e.start.relink twoSteps "id").value.1 = .unchanged := by
  intro e
  obtain ⟨-, hvalue, horder, -, -⟩ := edits_tell.1 "script" [] comeBack
  have hkeys : e.start.attributes.keys = ["id", "src"] := by decide
  have holder : Stroke.Older (Edit.history comeBack) "id" "src" := by
    rw [hkeys] at horder
    exact List.rel_of_pairwise_cons horder (List.mem_singleton.2 rfl)
  have hid : e.start.get? "id" = some "x" := (hvalue "id").trans (by decide)
  refine ⟨(hvalue "src").trans (by decide), hkeys, holder, ?_⟩
  exact (edits_tell.2.2 twoSteps e.start "id").2.2 (.inr ⟨"x", hid, by decide⟩)

end Element

end Relink
