import Mathlib.Data.List.Basic
import Relink.Rulebook

/-!
# The fates of attributes

What a manifest does to the attributes of an element can be said without any order:
every attribute has a *fate* (`Manifest.fate`), which depends on its own name and
value, on the names that are listed for its tag and on the manifest. It is kept, it
gets another value, or it is removed; and the attributes of an element meet their
fates together (`Manifest.fates`).

Meeting them one name at a time is no different, as long as no name is listed twice:
`Manifest.fates_cons` and `Manifest.met_cons`. What has been given another value
under one name is out of reach of the other names.
-/

namespace Relink

/-- What becomes of an attribute. -/
inductive Fate where
  /-- It stays as it is. -/
  | kept
  /-- It gets this value. -/
  | relinked (value : String)
  /-- It is removed. -/
  | removed
deriving DecidableEq

namespace Fate

/-- What is left of an attribute that meets its fate. -/
def leaves (a : String × String) : Fate → Option (String × String)
  | .kept => some a
  | .relinked value => some (a.1, value)
  | .removed => none

/-- The attribute gets a value. -/
def isRelinked : Fate → Bool
  | .relinked _ => true
  | _ => false

/-- The attribute is removed. -/
def isRemoved : Fate → Bool
  | .removed => true
  | _ => false

/-- The fate that a replacement stands for: if it is missing or empty, removal. -/
def ofReplacement : Option String → Fate
  | none => .removed
  | some r => if r = "" then .removed else .relinked r

end Fate

namespace Manifest

/-- The fate of an attribute under a list of names: if it is listed and not empty, it
is that of the first entry whose path the value denotes. -/
def fate (m : Manifest) (names : List String) (a : String × String) : Fate :=
  if a.1 ∈ names ∧ a.2 ≠ "" then
    match m.first? a.2 with
    | some e => .ofReplacement e.2
    | none => .kept
  else .kept

/-- What is left of attributes when each has met its fate. -/
def fates (m : Manifest) (names : List String) (es : Entries String) : Entries String :=
  es.filterMap fun a => (m.fate names a).leaves a

/-- How many attributes meet a fate of the given kind. -/
def met (m : Manifest) (kind : Fate → Bool) (names : List String) (es : Entries String) : Nat :=
  es.countP fun a => kind (m.fate names a)

variable (m : Manifest)

/-! ### The fates of one attribute -/

theorem fate_of_notMem {names : List String} {a : String × String} (h : a.1 ∉ names) :
    m.fate names a = .kept := if_neg fun hc => h hc.1

/-- An attribute that is listed has the fate it has under its name alone. -/
theorem fate_cons_self (names : List String) (n v : String) :
    m.fate (n :: names) (n, v) = m.fate [n] (n, v) := by
  simp [fate]

theorem fate_cons_of_ne (names : List String) {n : String} {a : String × String} (h : a.1 ≠ n) :
    m.fate (n :: names) a = m.fate names a := by
  simp [fate, h]

theorem fst_of_leaves {f : Fate} {a a' : String × String} (h : f.leaves a = some a') :
    a'.1 = a.1 := by
  cases f <;> simp only [Fate.leaves, Option.some.injEq, reduceCtorEq] at h <;> rw [← h]

/-- No attribute is given the empty value. -/
theorem snd_of_leaves_fate {names : List String} {a a' : String × String}
    (h : (m.fate names a).leaves a = some a') (he : a'.2 = "") : a' = a := by
  have hr : ∀ r, (Fate.ofReplacement r).leaves a ≠ some a' := by
    rintro (_ | r) hr
    · cases hr
    · by_cases hre : r = ""
      · simp [Fate.ofReplacement, hre, Fate.leaves] at hr
      · simp only [Fate.ofReplacement, if_neg hre, Fate.leaves, Option.some.injEq] at hr
        rw [← hr] at he
        exact hre he
  unfold fate at h
  split at h
  · cases hf : m.first? a.2 with
    | none =>
      rw [hf] at h
      exact (Option.some.inj h).symm
    | some e =>
      rw [hf] at h
      exact absurd h (hr e.2)
  · exact (Option.some.inj h).symm

/-! ### The fates of several attributes -/

/-- What is left of attributes are some of them, in their order. -/
theorem keys_fates_sublist (names : List String) (es : Entries String) :
    (Entries.keys (m.fates names es)).Sublist (Entries.keys es) := by
  induction es with
  | nil => exact List.Sublist.refl _
  | cons a es ih =>
    rw [fates, List.filterMap_cons]
    cases hl : (m.fate names a).leaves a with
    | none => exact ih.cons a.1
    | some a' =>
      rw [Entries.keys_cons, Entries.keys_cons, fst_of_leaves hl]
      exact ih.cons_cons a.1

variable {m : Manifest} {kind : Fate → Bool}

/-- What is left under a name is what the attribute with this name leaves. -/
theorem get?_fates (names : List String) {es : Entries String} (hn : (Entries.keys es).Nodup)
    (n : String) :
    Entries.get? (m.fates names es) n =
      (Entries.get? es n).bind fun v => ((m.fate names (n, v)).leaves (n, v)).map Prod.snd := by
  induction es with
  | nil => rfl
  | cons a es ih =>
    rw [Entries.keys_cons, List.nodup_cons] at hn
    have ih := ih hn.2
    rw [fates] at ih
    rw [fates, List.filterMap_cons, Entries.get?_cons]
    by_cases ha : a.1 = n
    · obtain ⟨k, v⟩ := a
      obtain rfl : k = n := ha
      cases hl : (m.fate names (k, v)).leaves (k, v) with
      | none =>
        -- nothing is left of it, and no other attribute has its name
        have hk : k ∉ Entries.keys (m.fates names es) := fun hk =>
          hn.1 ((m.keys_fates_sublist names es).subset hk)
        rw [if_pos rfl, Option.bind_some, hl]
        exact Entries.get?_eq_none_iff.2 hk
      | some a' =>
        have hk : a'.1 = k := fst_of_leaves hl
        simp [hl, Entries.get?_cons, hk]
    · rw [if_neg ha, ← ih]
      cases hl : (m.fate names a).leaves a with
      | none => rfl
      | some a' =>
        have hk : ¬ a'.1 = n := fst_of_leaves hl ▸ ha
        rw [Entries.get?_cons, if_neg hk]

theorem get?_fates_of_unlisted {names : List String} {es : Entries String}
    (hn : (Entries.keys es).Nodup) {n : String} (h : n ∉ names) :
    Entries.get? (m.fates names es) n = Entries.get? es n := by
  rw [get?_fates names hn]
  cases Entries.get? es n with
  | none => rfl
  | some v =>
    have hf : m.fate names (n, v) = .kept := fate_of_notMem m h
    simp [hf, Fate.leaves]

/-- An attribute that is empty when all have met their fates was empty before. -/
theorem get?_of_get?_fates_eq_empty {names : List String} {es : Entries String}
    (hn : (Entries.keys es).Nodup) {n : String}
    (h : Entries.get? (m.fates names es) n = some "") : Entries.get? es n = some "" := by
  rw [get?_fates names hn, Option.bind_eq_some_iff] at h
  obtain ⟨v, hv, hl⟩ := h
  obtain ⟨a', ha', he⟩ := Option.map_eq_some_iff.1 hl
  obtain rfl := snd_of_leaves_fate m ha' he
  rw [hv, ← he]

theorem fates_of_unlisted {names : List String} {es : Entries String}
    (h : ∀ n ∈ names, n ∉ Entries.keys es) : m.fates names es = es := by
  have hf : ∀ a ∈ es, (m.fate names a).leaves a = some (id a) := by
    intro a ha
    rw [fate_of_notMem m fun hn => h a.1 hn (List.mem_map_of_mem ha)]
    rfl
  rw [fates, List.filterMap_eq_map_iff_forall_eq_some.2 hf, List.map_id]

theorem met_of_unlisted (hk : kind .kept = false) {names : List String} {es : Entries String}
    (h : ∀ n ∈ names, n ∉ Entries.keys es) : m.met kind names es = 0 := by
  refine List.countP_eq_zero.2 fun a ha => ?_
  rw [fate_of_notMem m fun hn => h a.1 hn (List.mem_map_of_mem ha), hk]
  exact Bool.false_ne_true

/-- An attribute that has met its fate under its own name is left alone by the other
names. -/
theorem fates_cons {n : String} {names : List String} (hn : n ∉ names) (es : Entries String) :
    m.fates names (m.fates [n] es) = m.fates (n :: names) es := by
  rw [fates, fates, List.filterMap_filterMap]
  refine List.filterMap_congr fun a _ => ?_
  by_cases ha : a.1 = n
  · obtain ⟨k, v⟩ := a
    obtain rfl : k = n := ha
    rw [fate_cons_self m names]
    cases hl : (m.fate [k] (k, v)).leaves (k, v) with
    | none => rfl
    | some a' =>
      -- its new value could denote a path, but its name is not listed again
      have hk : a'.1 ∉ names := fst_of_leaves hl ▸ hn
      simp [fate_of_notMem m hk, Fate.leaves]
  · rw [fate_cons_of_ne m names ha, fate_of_notMem m (by simp [ha]), Fate.leaves]
    rfl

theorem met_cons (hk : kind .kept = false) {n : String} {names : List String} (hn : n ∉ names)
    (es : Entries String) :
    m.met kind [n] es + m.met kind names (m.fates [n] es) = m.met kind (n :: names) es := by
  induction es with
  | nil => rfl
  | cons a es ih =>
    by_cases ha : a.1 = n
    · obtain ⟨k, v⟩ := a
      obtain rfl : k = n := ha
      -- it has been counted under its own name, and is not counted again
      have hrest : m.met kind names (m.fates [k] ((k, v) :: es)) =
          m.met kind names (m.fates [k] es) := by
        rw [fates, List.filterMap_cons]
        cases hl : (m.fate [k] (k, v)).leaves (k, v) with
        | none => rfl
        | some a' =>
          have hk' : a'.1 ∉ names := fst_of_leaves hl ▸ hn
          simp [met, fates, fate_of_notMem m hk', hk]
      rw [hrest]
      simp only [met, List.countP_cons, fate_cons_self m names] at ih ⊢
      omega
    · have hone : m.fate [n] a = .kept := fate_of_notMem m (by simp [ha])
      have hrest : m.fates [n] (a :: es) = a :: m.fates [n] es := by
        simp [fates, hone, Fate.leaves]
      rw [hrest]
      simp only [met, List.countP_cons, hone, hk, fate_cons_of_ne m names ha,
        Bool.false_eq_true, if_false] at ih ⊢
      omega

section Split

variable {before after : Entries String} {n : String} (hb : n ∉ Entries.keys before)
  (ha : n ∉ Entries.keys after) (v : String)

include hb ha

theorem fates_split : m.fates [n] (before ++ (n, v) :: after) =
    before ++ ((m.fate [n] (n, v)).leaves (n, v)).toList ++ after := by
  have hbs : m.fates [n] before = before := fates_of_unlisted (by simpa using hb)
  have has : m.fates [n] after = after := fates_of_unlisted (by simpa using ha)
  rw [fates] at hbs has ⊢
  rw [List.filterMap_append, hbs, List.filterMap_cons, has]
  cases (m.fate [n] (n, v)).leaves (n, v) <;> simp

theorem met_split (hk : kind .kept = false) : m.met kind [n] (before ++ (n, v) :: after) =
    (kind (m.fate [n] (n, v))).toNat := by
  have hbs : m.met kind [n] before = 0 := met_of_unlisted hk (by simpa using hb)
  have has : m.met kind [n] after = 0 := met_of_unlisted hk (by simpa using ha)
  rw [met] at hbs has ⊢
  rw [List.countP_append, hbs, List.countP_cons, has]
  cases kind (m.fate [n] (n, v)) <;> rfl

end Split

end Manifest

end Relink
