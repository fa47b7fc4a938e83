import Relink.Proofs.Json.Scalars

/-!
# Reading values

The readers of arrays and objects go about their work alike: past blanks, and past a
comma unless it is the first time, to the next item or to the bracket that closes. What
a round comes to is said once for both (`Relink.Json.Loop`), and what the reader of an
item has to do for the whole to be right, too (`Relink.Json.Reads`). From these, by
induction on the rounds in one direction and on the items in the other, a loop reads
exactly the series of items of the grammar, as long as it has a round for each byte.

Values follow by induction on how many arrays and objects may be open. What is read
is a value of the grammar after it has been settled, and every value of the grammar
is read, if what follows it may follow a value.
-/

namespace Relink

namespace Json

/-! ### Lengths

Every form but blanks takes at least one byte. -/

section Lengths

variable {bs rest : Bytes}

theorem Blanks.length_le (h : Blanks bs rest) : rest.length ≤ bs.length := by
  induction h with
  | none bs => exact Nat.le_refl _
  | cons _ _ ih => exact Nat.le_succ_of_le ih

theorem Opens.length_le {first : Bool} (h : Opens first bs rest) : rest.length ≤ bs.length := by
  cases first with
  | true => exact Blanks.length_le h
  | false =>
    obtain ⟨mid, h₁, h₂⟩ := h
    have h₁ := h₁.length_le
    have h₂ := h₂.length_le
    rw [List.length_cons] at h₁
    omega

theorem Pieces.length_lt {content : Bytes} (h : Pieces bs content rest) :
    rest.length < bs.length := by
  induction h with
  | close rest => exact Nat.lt_succ_self _
  | cons h _ ih => exact Nat.lt_trans ih h.length_lt

theorem Digits.length_eq {ds : List Nat} (h : Digits bs ds rest) :
    rest.length + ds.length = bs.length := by
  induction h with
  | none bs => rfl
  | cons _ _ ih => rw [List.length_cons, List.length_cons, ← ih, Nat.add_assoc]

theorem Minus.length_le {negative : Bool} (h : Minus bs negative rest) :
    rest.length ≤ bs.length := by
  rcases h with _ | _
  · exact Nat.le_refl _
  · exact Nat.le_succ _

theorem Fraction.length_le {fraction : Option (List Nat)} (h : Fraction bs fraction rest) :
    rest.length ≤ bs.length := by
  rcases h with _ | ⟨h, -⟩
  · exact Nat.le_refl _
  · have := h.length_eq
    rw [List.length_cons]
    omega

theorem ExponentSign.length_le {down : Bool} (h : ExponentSign bs down rest) :
    rest.length ≤ bs.length := by
  rcases h with _ | _ | _
  · exact Nat.le_refl _
  · exact Nat.le_succ _
  · exact Nat.le_succ _

theorem Exponent.length_le {exponent : Option (Bool × List Nat)}
    (h : Exponent bs exponent rest) : rest.length ≤ bs.length := by
  rcases h with _ | ⟨-, sign, h, -⟩
  · exact Nat.le_refl _
  · have := h.length_eq
    have := sign.length_le
    rw [List.length_cons]
    omega

theorem Written.length_lt {l : Literal} (h : Written bs l rest) : rest.length < bs.length := by
  obtain ⟨minus, ⟨digits, ne, -⟩, fraction, exponent⟩ := h
  have := List.length_pos_of_ne_nil ne
  have := digits.length_eq
  have := minus.length_le
  have := fraction.length_le
  have := exponent.length_le
  omega

theorem Scalar.length_lt {v : Json} (h : Scalar bs v rest) : rest.length < bs.length := by
  cases h with
  | number h _ => exact h.length_lt
  | string h => exact Nat.lt_succ_of_lt h.length_lt
  | _ => simp only [List.length_cons]; omega

variable {α : Type} {close : UInt8} {item : Bytes → α → Bytes → Prop}

/-- A series takes at least as many bytes as it has items, and one more. -/
theorem Series.length_lt (hitem : ∀ {bs a rest}, item bs a rest → rest.length < bs.length)
    {first : Bool} {as : List α} (h : Series close item first bs as rest) :
    as.length + rest.length < bs.length := by
  induction h with
  | close h =>
    have := h.length_le
    rw [List.length_cons] at this
    rw [List.length_nil]
    omega
  | item opens h _ ih =>
    have := opens.length_le
    have := hitem h
    rw [List.length_cons]
    omega

theorem Member.length_lt {value : Bytes → Json → Bytes → Prop}
    (hvalue : ∀ {bs v rest}, value bs v rest → rest.length < bs.length) {m : String × Json}
    (h : Member value bs m rest) : rest.length < bs.length := by
  obtain ⟨text, colon, blanks, h⟩ := h
  have := Pieces.length_lt text
  have := colon.length_le
  have := blanks.length_le
  have := hvalue h
  simp only [List.length_cons] at *
  omega

theorem Value.length_lt {depth : Nat} {v : Json} (h : Value depth bs v rest) :
    rest.length < bs.length := by
  induction depth generalizing bs v rest with
  | zero => exact Scalar.length_lt h
  | succ depth ih =>
    rcases h with h | ⟨inner, items, rfl, -, h⟩ | ⟨inner, members, rfl, -, h⟩
    · exact h.length_lt
    · have := h.length_lt ih
      rw [List.length_cons]
      omega
    · have := h.length_lt (Member.length_lt ih)
      rw [List.length_cons]
      omega

end Lengths

/-! ### Rounds -/

section Rounds

variable {σ α : Type} {close : UInt8} {element : σ → Bytes → Reading (σ × Bytes)}
  {loop : Bytes → Bool → σ → Bytes → Reading (σ × Bytes)} {item : Bytes → α → Bytes → Prop}
  {add : σ → α → σ} {first : Bool} {s s' : σ} {bs rest rounds : Bytes} {as : List α}

/-- A reader that reads elements up to a closing bracket, one in each round, and has
as many rounds as its first argument has bytes. -/
structure Loop (close : UInt8) (element : σ → Bytes → Reading (σ × Bytes))
    (loop : Bytes → Bool → σ → Bytes → Reading (σ × Bytes)) : Prop where
  /-- It gives up when there is no more round. -/
  nil : ∀ first s bs, loop [] first s bs = .error .truncated
  /-- It closes, or reads an element and goes on. -/
  cons : ∀ r rounds first s bs s' rest, loop (r :: rounds) first s bs = .ok (s', rest) ↔
    (Blanks bs (close :: rest) ∧ s' = s) ∨
    ∃ b t s₁ bs₁, Opens first bs (b :: t) ∧ isBlank b = false ∧ b ≠ close ∧
      element s (b :: t) = .ok (s₁, bs₁) ∧ loop rounds false s₁ bs₁ = .ok (s', rest)

/-- A reader that reads what the grammar calls an item, if its first byte is there
already, and adds it to what it has been given. -/
structure Reads (close : UInt8) (element : σ → Bytes → Reading (σ × Bytes))
    (item : Bytes → α → Bytes → Prop) (add : σ → α → σ) : Prop where
  /-- What it reads is an item. -/
  sound : ∀ {s b t s' rest}, isBlank b = false → element s (b :: t) = .ok (s', rest) →
    ∃ a, item (b :: t) a rest ∧ s' = add s a
  /-- It reads every item. -/
  complete : ∀ {bs a rest} (s : σ), item bs a rest → Follows rest →
    element s bs = .ok (add s a, rest)
  /-- An item begins neither with a blank nor with the closing bracket. -/
  begins : ∀ {bs a rest}, item bs a rest → ∃ b t, bs = b :: t ∧ isBlank b = false ∧ b ≠ close
  /-- An item takes at least one byte. -/
  length_lt : ∀ {bs a rest}, item bs a rest → rest.length < bs.length

/-- A reader that reads what the grammar calls an item, if its first byte is there
already, and goes on to a state that the item leads to. There may be none, and then the
item is refused. -/
structure Advances (close : UInt8) (element : σ → Bytes → Reading (σ × Bytes))
    (item : Bytes → α → Bytes → Prop) (step : σ → α → σ → Prop) : Prop where
  /-- What it reads is an item, and leads on. -/
  sound : ∀ {s b t s' rest}, isBlank b = false → element s (b :: t) = .ok (s', rest) →
    ∃ a, item (b :: t) a rest ∧ step s a s'
  /-- It reads every item that leads on. -/
  complete : ∀ {s s' bs a rest}, item bs a rest → step s a s' → Follows rest →
    element s bs = .ok (s', rest)
  /-- An item begins neither with a blank nor with the closing bracket. -/
  begins : ∀ {bs a rest}, item bs a rest → ∃ b t, bs = b :: t ∧ isBlank b = false ∧ b ≠ close
  /-- An item takes at least one byte. -/
  length_lt : ∀ {bs a rest}, item bs a rest → rest.length < bs.length

/-- No item is refused by a reader that can add every one. -/
theorem Reads.advances (hr : Reads close element item add) :
    Advances close element item fun s a s' => s' = add s a where
  sound := hr.sound
  complete ha hs hf := hs ▸ hr.complete _ ha hf
  begins := hr.begins
  length_lt := hr.length_lt

/-- From a state to another one, in a step for each item. -/
inductive Steps (step : σ → α → σ → Prop) : σ → List α → σ → Prop
  /-- There is no item. -/
  | nil (s : σ) : Steps step s [] s
  /-- There is one more. -/
  | cons {s s₁ s' : σ} {a : α} {as : List α} (h : step s a s₁) :
      Steps step s₁ as s' → Steps step s (a :: as) s'

theorem steps_eq_iff : Steps (fun s a s' => s' = add s a) s as s' ↔ s' = as.foldl add s := by
  constructor
  · intro h
    induction h with
    | nil s => rfl
    | cons h _ ih => rw [ih, h, List.foldl_cons]
  · rintro rfl
    induction as generalizing s with
    | nil => exact .nil s
    | cons a as ih => exact .cons rfl ih

variable {step : σ → α → σ → Prop}

/-- What a loop has read is a series of items. -/
theorem Loop.sound (hl : Loop close element loop) (hr : Advances close element item step)
    (h : loop rounds first s bs = .ok (s', rest)) :
    ∃ as, Series close item first bs as rest ∧ Steps step s as s' := by
  induction rounds generalizing first s bs with
  | nil =>
    rw [hl.nil] at h
    cases h
  | cons r rounds ih =>
    rcases (hl.cons r rounds first s bs s' rest).1 h with
      ⟨hclose, rfl⟩ | ⟨b, t, s₁, bs₁, hopens, hb, -, helement, hloop⟩
    · exact ⟨[], .close hclose, .nil _⟩
    · obtain ⟨a, ha, hstep⟩ := hr.sound hb helement
      obtain ⟨as, has, hsteps⟩ := ih hloop
      exact ⟨a :: as, .item hopens ha has, .cons hstep hsteps⟩

/-- A series of items is read by a loop that has more rounds than there are items. -/
theorem Loop.complete (hl : Loop close element loop) (hr : Advances close element item step)
    (hclose : close = byte ']' ∨ close = byte '\x7d') (h : Series close item first bs as rest)
    (hsteps : Steps step s as s') (hrounds : as.length < rounds.length) :
    loop rounds first s bs = .ok (s', rest) := by
  induction h generalizing s rounds with
  | close h =>
    obtain ⟨r, rounds, rfl⟩ := List.exists_cons_of_length_pos hrounds
    cases hsteps
    exact (hl.cons r rounds _ s' _ s' _).2 (.inl ⟨h, rfl⟩)
  | @item first bs mid bs' rest a as opens h htail ih =>
    -- this round is for the first item, and there is one left for each of the others
    obtain ⟨r, rounds, rfl⟩ := List.exists_cons_of_length_pos (Nat.zero_lt_of_lt hrounds)
    obtain ⟨b, t, rfl, hb, hne⟩ := hr.begins h
    cases hsteps with
    | @cons _ s₁ _ _ _ hstep hsteps =>
      refine (hl.cons r rounds first s bs _ rest).2 (.inr ⟨b, t, s₁, bs', opens, hb, hne,
        hr.complete h hstep (htail.follows hclose), ?_⟩)
      exact ih hsteps (Nat.lt_of_succ_lt_succ hrounds)

/-- **A loop reads exactly the series of items that lead on**, if it has a round for each
byte. -/
theorem Loop.eq_ok_iff_steps (hl : Loop close element loop)
    (hr : Advances close element item step) (hclose : close = byte ']' ∨ close = byte '\x7d') :
    loop bs first s bs = .ok (s', rest) ↔
      ∃ as, Series close item first bs as rest ∧ Steps step s as s' := by
  constructor
  · exact hl.sound hr
  · rintro ⟨as, h, hsteps⟩
    have := h.length_lt hr.length_lt
    exact hl.complete hr hclose h hsteps (by omega)

/-- **A loop reads exactly the series of items**, if no item is refused. -/
theorem Loop.eq_ok_iff (hl : Loop close element loop) (hr : Reads close element item add)
    (hclose : close = byte ']' ∨ close = byte '\x7d') :
    loop bs first s bs = .ok (s', rest) ↔
      ∃ as, Series close item first bs as rest ∧ s' = as.foldl add s := by
  rw [hl.eq_ok_iff_steps hr.advances hclose]
  simp only [steps_eq_iff]

end Rounds

/-! ### Marks -/

section Marks

variable {c : UInt8} {bs rest : Bytes}

/-- Reads a byte after blanks. -/
def readMark (c : UInt8) (bs : Bytes) : Reading Bytes :=
  match skipBlanks bs with
  | [] => .error .truncated
  | b :: rest => if b = c then .ok rest else .error .malformed

theorem closeArray_eq (bs : Bytes) : closeArray bs = readMark (byte ']') bs := rfl

theorem closeObject_eq (bs : Bytes) : closeObject bs = readMark (byte '\x7d') bs := rfl

theorem readColon_eq (bs : Bytes) : readColon bs = readMark (byte ':') bs := rfl

theorem readMark_eq_ok_iff (hc : isBlank c = false) :
    readMark c bs = .ok rest ↔ Blanks bs (c :: rest) := by
  have hiff : skipBlanks bs = c :: rest ↔ Blanks bs (c :: rest) := by
    rw [skipBlanks_eq_cons_iff, and_iff_left hc]
  rw [← hiff, readMark]
  rcases skipBlanks bs with _ | ⟨b, t⟩
  · simp
  · by_cases hb : b = c <;> simp [hb]

end Marks

/-! ### The two loops -/

section Loops

variable {σ : Type} {first : Bool} {b : UInt8} {bs mid rest : Bytes}

theorem opens_true_iff (hb : isBlank b = false) :
    Opens true bs (b :: rest) ↔ skipBlanks bs = b :: rest := by
  rw [skipBlanks_eq_cons_iff, and_iff_left hb]
  rfl

theorem opens_false_iff (hb : isBlank b = false) :
    Opens false bs (b :: rest) ↔
      ∃ mid, skipBlanks bs = byte ',' :: mid ∧ skipBlanks mid = b :: rest := by
  have hcomma : isBlank (byte ',') = false := by decide
  simp only [skipBlanks_eq_cons_iff, hb, hcomma, and_true]
  rfl

theorem nextItem?_of_blanks (h : Blanks bs (byte ']' :: rest)) :
    nextItem? first bs = .ok none := by
  simp [nextItem?, skipBlanks_eq_cons_iff.2 ⟨h, by decide⟩]

theorem exists_of_nextItem? (h : nextItem? first bs = .ok (some mid)) :
    ∃ b t, mid = b :: t ∧ Opens first bs (b :: t) ∧ isBlank b = false ∧ b ≠ byte ']' := by
  rcases hs : skipBlanks bs with _ | ⟨b, t⟩
  · simp [nextItem?, hs] at h
  have hb := (skipBlanks_eq_cons_iff.1 hs).2
  by_cases hclose : b = byte ']'
  · simp [nextItem?, hs, hclose] at h
  simp only [nextItem?, hs, hclose, if_false] at h
  rcases first with _ | _
  · -- behind an item: what was found has to be a comma, and the item comes after it
    simp only [Bool.false_eq_true, if_false] at h
    split at h
    · next hcomma =>
      split at h
      · cases h
      · next c u hs' =>
        have hc := (skipBlanks_eq_cons_iff.1 hs').2
        split at h
        · cases h
        · next hne =>
          obtain rfl := Option.some.inj (Except.ok.inj h)
          exact ⟨c, u, rfl, (opens_false_iff hc).2 ⟨t, hcomma ▸ hs, hs'⟩, hc, hne⟩
    · cases h
  · simp only [if_true] at h
    obtain rfl := Option.some.inj (Except.ok.inj h)
    exact ⟨b, t, rfl, (opens_true_iff hb).2 hs, hb, hclose⟩

theorem nextItem?_of_opens (h : Opens first bs (b :: rest)) (hb : isBlank b = false)
    (hne : b ≠ byte ']') : nextItem? first bs = .ok (some (b :: rest)) := by
  rcases first with _ | _
  · obtain ⟨mid, hs₁, hs₂⟩ := (opens_false_iff hb).1 h
    have hcomma : byte ',' ≠ byte ']' := by decide
    simp [nextItem?, hs₁, hs₂, hne, hcomma]
  · have hs := (opens_true_iff hb).1 h
    simp [nextItem?, hs, hne]

/-- The reader of arrays is a loop over its items. -/
theorem loop_readItems (item : σ → Bytes → Reading (σ × Bytes)) :
    Loop (byte ']') item (readItems item) where
  nil first s bs := rfl
  cons r rounds first s bs s' rest := by
    constructor
    · intro h
      rw [readItems] at h
      split at h
      · cases h
      · obtain ⟨rest', hc, h⟩ := bind_eq_ok_iff.1 h
        cases h
        rw [closeArray_eq, readMark_eq_ok_iff (by decide)] at hc
        exact .inl ⟨hc, rfl⟩
      · next mid hn =>
        obtain ⟨b, t, rfl, hopens, hb, hne⟩ := exists_of_nextItem? hn
        split at h
        · cases h
        · next s₁ bs₁ hi => exact .inr ⟨b, t, s₁, bs₁, hopens, hb, hne, hi, h⟩
    · rintro (⟨hc, rfl⟩ | ⟨b, t, s₁, bs₁, hopens, hb, hne, hi, hl⟩)
      · have hn : nextItem? first bs = .ok none := nextItem?_of_blanks hc
        rw [← readMark_eq_ok_iff (by decide), ← closeArray_eq] at hc
        rw [readItems, hn]
        exact bind_eq_ok_iff.2 ⟨rest, hc, rfl⟩
      · rw [readItems, nextItem?_of_opens hopens hb hne]
        simp only [hi, hl]

theorem readName_eq_ok_iff {name : String} :
    readName bs = .ok (name, rest) ↔ ∃ t, bs = byte '"' :: t ∧ TextRest t name rest := by
  rcases bs with _ | ⟨b, t⟩
  · simp [readName]
  · by_cases hb : b = byte '"'
    · simp [readName, hb, readText_eq_ok_iff]
    · simp [readName, hb]

theorem map_readName_eq_ok_iff {name : String} :
    (readName bs).map some = .ok (some (name, rest)) ↔
      ∃ t, bs = byte '"' :: t ∧ TextRest t name rest := by
  rw [← readName_eq_ok_iff]
  cases readName bs <;> simp [Except.map]

theorem exists_of_nextMember? {name : String}
    (h : nextMember? first bs = .ok (some (name, mid))) :
    ∃ t, Opens first bs (byte '"' :: t) ∧ TextRest t name mid := by
  have hquote : isBlank (byte '"') = false := by decide
  rcases hs : skipBlanks bs with _ | ⟨b, t⟩
  · simp [nextMember?, hs] at h
  by_cases hclose : b = byte '\x7d'
  · simp [nextMember?, hs, hclose] at h
  simp only [nextMember?, hs, hclose, if_false] at h
  rcases first with _ | _
  · -- behind a member: what was found has to be a comma, and the name comes after it
    simp only [Bool.false_eq_true, if_false] at h
    split at h
    · next hcomma =>
      obtain ⟨t', ht, htext⟩ := map_readName_eq_ok_iff.1 h
      exact ⟨t', (opens_false_iff hquote).2 ⟨t, hcomma ▸ hs, ht⟩, htext⟩
    · cases h
  · simp only [if_true] at h
    obtain ⟨t', ht, htext⟩ := map_readName_eq_ok_iff.1 h
    exact ⟨t', (opens_true_iff hquote).2 (ht ▸ hs), htext⟩

theorem nextMember?_of_blanks (h : Blanks bs (byte '\x7d' :: rest)) :
    nextMember? first bs = .ok none := by
  simp [nextMember?, skipBlanks_eq_cons_iff.2 ⟨h, by decide⟩]

theorem nextMember?_of_opens {name : String} {t : Bytes} (h : Opens first bs (byte '"' :: t))
    (htext : TextRest t name mid) : nextMember? first bs = .ok (some (name, mid)) := by
  have hquote : isBlank (byte '"') = false := by decide
  have hname : (readName (byte '"' :: t)).map some = .ok (some (name, mid)) :=
    map_readName_eq_ok_iff.2 ⟨t, rfl, htext⟩
  rcases first with _ | _
  · obtain ⟨u, hs₁, hs₂⟩ := (opens_false_iff hquote).1 h
    have hcomma : byte ',' ≠ byte '\x7d' := by decide
    simp [nextMember?, hs₁, hs₂, hcomma, hname]
  · have hs := (opens_true_iff hquote).1 h
    have hne : byte '"' ≠ byte '\x7d' := by decide
    simp [nextMember?, hs, hne, hname]

/-- A member from its name on. -/
def readNamed (member : σ → String → Bytes → Reading (σ × Bytes)) (s : σ) (bs : Bytes) :
    Reading (σ × Bytes) :=
  readName bs >>= fun x => member s x.1 x.2

/-- The reader of objects is a loop over its members. -/
theorem loop_readMembers (member : σ → String → Bytes → Reading (σ × Bytes)) :
    Loop (byte '\x7d') (readNamed member) (readMembers member) where
  nil first s bs := rfl
  cons r rounds first s bs s' rest := by
    constructor
    · intro h
      rw [readMembers] at h
      split at h
      · cases h
      · obtain ⟨rest', hc, h⟩ := bind_eq_ok_iff.1 h
        cases h
        rw [closeObject_eq, readMark_eq_ok_iff (by decide)] at hc
        exact .inl ⟨hc, rfl⟩
      · next name mid hn =>
        obtain ⟨t, hopens, htext⟩ := exists_of_nextMember? hn
        split at h
        · cases h
        · next s₁ bs₁ hm =>
          have hnamed : readNamed member s (byte '"' :: t) = .ok (s₁, bs₁) :=
            bind_eq_ok_iff.2 ⟨(name, mid), readName_eq_ok_iff.2 ⟨t, rfl, htext⟩, hm⟩
          exact .inr ⟨_, t, s₁, bs₁, hopens, by decide, by decide, hnamed, h⟩
    · rintro (⟨hc, rfl⟩ | ⟨b, t, s₁, bs₁, hopens, hb, hne, hm, hl⟩)
      · have hn : nextMember? first bs = .ok none := nextMember?_of_blanks hc
        rw [← readMark_eq_ok_iff (by decide), ← closeObject_eq] at hc
        rw [readMembers, hn]
        exact bind_eq_ok_iff.2 ⟨rest, hc, rfl⟩
      · obtain ⟨⟨name, mid⟩, hname, hm⟩ := bind_eq_ok_iff.1 hm
        obtain ⟨t', ht, htext⟩ := readName_eq_ok_iff.1 hname
        rw [readMembers, nextMember?_of_opens (ht ▸ hopens) htext]
        simp only at hm
        simp only [hm, hl]

end Loops

/-! ### Values -/

section Values

variable {depth : Nat} {bs mid rest : Bytes} {v w : Json}

theorem settleItems_eq_map (items : List Json) : settleItems items = items.map settle := by
  induction items with
  | nil => rfl
  | cons v vs ih => rw [settleItems, ih, List.map_cons]

theorem settleMembers_eq_map (members : List (String × Json)) :
    settleMembers members = members.map fun m => (m.1, settle m.2) := by
  induction members with
  | nil => rfl
  | cons m ms ih => rw [settleMembers, ih, List.map_cons]

/-- The items that have been read are kept in reverse order. -/
theorem foldl_items (items : List Json) :
    items.foldl (fun acc v => settle v :: acc) [] = (settleItems items).reverse := by
  rw [List.foldl_flip_cons_eq_append, List.append_nil, settleItems_eq_map]

/-- The members that have been read are settled already. -/
theorem foldl_members (members : List (String × Json)) :
    members.foldl (fun es m => Entries.put es m.1 (settle m.2)) [] =
      Entries.settle (settleMembers members) := by
  rw [← Entries.putAll_nil_eq_settle, Entries.putAll, settleMembers_eq_map, List.foldl_map]

/-- A value is read as the grammar has it, with its members settled. -/
structure ReadsValues (depth : Nat) : Prop where
  /-- What is read is a value. -/
  sound : ∀ {bs w rest}, readValue depth bs = .ok (w, rest) →
    ∃ v, Value depth (skipBlanks bs) v rest ∧ w = settle v
  /-- Every value is read. -/
  complete : ∀ {bs mid v rest}, Blanks bs mid → Value depth mid v rest → Follows rest →
    readValue depth bs = .ok (settle v, rest)

theorem ReadsValues.item (h : ReadsValues depth) :
    Reads (byte ']') (readItem (readValue depth)) (Value depth)
      (fun acc v => settle v :: acc) where
  sound {s b t s' rest} hb hi := by
    obtain ⟨⟨w, rest'⟩, hv, hi⟩ := bind_eq_ok_iff.1 hi
    cases hi
    obtain ⟨v, hvalue, rfl⟩ := h.sound hv
    rw [skipBlanks_cons hb] at hvalue
    exact ⟨v, hvalue, rfl⟩
  complete {bs v rest} s hv hf := bind_eq_ok_iff.2 ⟨_, h.complete (.none bs) hv hf, rfl⟩
  begins {bs v rest} hv := by
    obtain ⟨b, t, rfl, hb, hne, -⟩ := hv.begins
    exact ⟨b, t, rfl, hb, hne⟩
  length_lt hv := hv.length_lt

/-- A name, a colon and a value that have been read one after the other are a member. -/
theorem ReadsValues.exists_member (h : ReadsValues depth) {name : String} {a a' : Bytes}
    (hname : readName bs = .ok (name, a)) (hcolon : readColon a = .ok a')
    (hv : readValue depth a' = .ok (w, rest)) :
    ∃ v, Member (Value depth) bs (name, v) rest ∧ w = settle v := by
  obtain ⟨t, rfl, htext⟩ := readName_eq_ok_iff.1 hname
  rw [readColon_eq, readMark_eq_ok_iff (by decide)] at hcolon
  obtain ⟨v, hvalue, rfl⟩ := h.sound hv
  exact ⟨v, .mk htext hcolon (blanks_skipBlanks a') hvalue, rfl⟩

/-- From a member its name, its colon and its value are read. -/
theorem ReadsValues.exists_read (h : ReadsValues depth) {m : String × Json}
    (hm : Member (Value depth) bs m rest) (hf : Follows rest) :
    ∃ a a', readName bs = .ok (m.1, a) ∧ readColon a = .ok a' ∧
      readValue depth a' = .ok (settle m.2, rest) := by
  obtain ⟨htext, hcolon, hblanks, hv⟩ := hm
  rw [← readMark_eq_ok_iff (by decide), ← readColon_eq] at hcolon
  exact ⟨_, _, readName_eq_ok_iff.2 ⟨_, rfl, htext⟩, hcolon, h.complete hblanks hv hf⟩

theorem Member.begins {value : Bytes → Json → Bytes → Prop} {m : String × Json}
    (h : Member value bs m rest) :
    ∃ b t, bs = b :: t ∧ isBlank b = false ∧ b ≠ byte '\x7d' := by
  obtain ⟨-, -, -, -⟩ := h
  exact ⟨_, _, rfl, by decide, by decide⟩

/-- **A reader that does something with each member** reads the members with which it
can be done. What is done depends on the settled value; `accepts` and `add` say what it
comes to. -/
theorem ReadsValues.named {σ : Type} (h : ReadsValues depth)
    {store : σ → String → Json → Reading σ} {accepts : Json → Prop}
    {add : σ → String × Json → σ}
    (hstore : ∀ {s name v s'},
      store s name (settle v) = .ok s' ↔ accepts v ∧ s' = add s (name, v)) :
    Reads (byte '\x7d')
      (readNamed fun s name bs => do
        let bs ← readColon bs
        let (v, bs) ← readValue depth bs
        let s ← store s name v
        .ok (s, bs))
      (fun bs m rest => Member (Value depth) bs m rest ∧ accepts m.2) add where
  sound {s b t s' rest} hb hi := by
    obtain ⟨⟨name, a⟩, hname, hi⟩ := bind_eq_ok_iff.1 hi
    obtain ⟨a', hcolon, hi⟩ := bind_eq_ok_iff.1 hi
    obtain ⟨⟨w, rest'⟩, hv, hi⟩ := bind_eq_ok_iff.1 hi
    obtain ⟨s₁, hs, hi⟩ := bind_eq_ok_iff.1 hi
    cases hi
    obtain ⟨v, hm, rfl⟩ := h.exists_member hname hcolon hv
    obtain ⟨haccepts, rfl⟩ := hstore.1 hs
    exact ⟨(name, v), ⟨hm, haccepts⟩, rfl⟩
  complete {bs m rest} s hm hf := by
    obtain ⟨a, a', hname, hcolon, hv⟩ := h.exists_read hm.1 hf
    refine bind_eq_ok_iff.2 ⟨_, hname, bind_eq_ok_iff.2 ⟨_, hcolon, ?_⟩⟩
    refine bind_eq_ok_iff.2 ⟨_, hv, bind_eq_ok_iff.2 ⟨_, hstore.2 ⟨hm.2, rfl⟩, rfl⟩⟩
  begins hm := hm.1.begins
  length_lt hm := hm.1.length_lt fun hv => hv.length_lt

theorem ReadsValues.member (h : ReadsValues depth) :
    Reads (byte '\x7d') (readNamed (readMember (readValue depth))) (Member (Value depth))
      (fun es m => Entries.put es m.1 (settle m.2)) := by
  have hr := @ReadsValues.named depth _ h (fun es name v => .ok (Entries.put es name v))
    (fun _ => True) (fun es m => Entries.put es m.1 (settle m.2)) (by simp [eq_comm])
  simp only [and_true] at hr
  exact hr

/-- A scalar settles to itself. -/
theorem Scalar.settle_eq (h : Scalar bs v rest) : settle v = v := by
  cases h <;> rfl

/-- A scalar begins with neither of the opening brackets. -/
theorem Scalar.not_bracket {b : UInt8} {t : Bytes} (h : Scalar (b :: t) v rest) :
    b ≠ byte '[' ∧ b ≠ byte '\x7b' := by
  cases h with
  | number h _ =>
    obtain ⟨b', t', hbt, hb⟩ := h.head
    cases hbt
    constructor
    · rintro rfl
      exact absurd hb (by decide)
    · rintro rfl
      exact absurd hb (by decide)
  | _ => exact ⟨by decide, by decide⟩

/-- **Values are read as the grammar has them**, whatever number of arrays and objects
may be open. -/
theorem readsValues (depth : Nat) : ReadsValues depth := by
  induction depth with
  | zero =>
    constructor
    · intro bs w rest h
      have hw := scalar_of_readScalar h
      exact ⟨w, hw, hw.settle_eq.symm⟩
    · intro bs mid v rest hblanks hv hf
      have hs : skipBlanks bs = mid := hblanks.skipBlanks_eq.trans hv.begins.skipBlanks_eq
      have hv : Scalar mid v rest := hv
      rw [readValue, hs, hv.settle_eq]
      exact hv.readScalar_eq hf
  | succ depth ih =>
    constructor
    · intro bs w rest h
      rcases hs : skipBlanks bs with _ | ⟨b, t⟩
      · simp [readValue, hs] at h
      simp only [readValue, hs] at h
      split at h
      · -- an array, whose items may be nested one level less
        next hb =>
        obtain ⟨⟨items, rest'⟩, hitems, h⟩ := bind_eq_ok_iff.1 h
        cases h
        obtain ⟨as, has, rfl⟩ := ((loop_readItems _).eq_ok_iff ih.item (.inl rfl)).1 hitems
        refine ⟨.array as, .inr (.inl ⟨t, as, by rw [hb], rfl, has⟩), ?_⟩
        rw [foldl_items, List.reverse_reverse, settle]
      · split at h
        · -- an object, likewise
          next hb =>
          obtain ⟨⟨members, rest'⟩, hmembers, h⟩ := bind_eq_ok_iff.1 h
          cases h
          obtain ⟨as, has, rfl⟩ :=
            ((loop_readMembers _).eq_ok_iff ih.member (.inr rfl)).1 hmembers
          refine ⟨.object as, .inr (.inr ⟨t, as, by rw [hb], rfl, has⟩), ?_⟩
          rw [foldl_members, settle]
        · have hw := scalar_of_readScalar h
          exact ⟨w, .inl hw, hw.settle_eq.symm⟩
    · intro bs mid v rest hblanks hv hf
      have hs : skipBlanks bs = mid := hblanks.skipBlanks_eq.trans hv.begins.skipBlanks_eq
      rcases hv with hv | ⟨inner, items, rfl, rfl, hitems⟩ | ⟨inner, members, rfl, rfl, hmembers⟩
      · obtain ⟨b, t, rfl, -, -, -⟩ := hv.begins
        obtain ⟨harray, hobject⟩ := hv.not_bracket
        simp only [readValue, hs, harray, hobject, if_false]
        rw [hv.settle_eq]
        exact hv.readScalar_eq hf
      · have hread := ((loop_readItems _).eq_ok_iff (s := []) ih.item (.inl rfl)).2
          ⟨items, hitems, rfl⟩
        simp only [readValue, hs, if_true]
        refine bind_eq_ok_iff.2 ⟨_, hread, ?_⟩
        rw [foldl_items, List.reverse_reverse, settle]
      · have hread := ((loop_readMembers _).eq_ok_iff (s := []) ih.member (.inr rfl)).2
          ⟨members, hmembers, rfl⟩
        have hne : byte '\x7b' ≠ byte '[' := by decide
        simp only [readValue, hs, hne, if_false, if_true]
        refine bind_eq_ok_iff.2 ⟨_, hread, ?_⟩
        rw [foldl_members, settle]

end Values

end Json

end Relink
