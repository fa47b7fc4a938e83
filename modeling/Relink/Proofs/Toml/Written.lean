import Mathlib.Data.List.TakeWhile
import Relink.Toml.Reader

/-!
# Written TOML

The part of TOML in which settings are written down, said without reading it: basic
strings with whatever of their characters escaped, keys of one part, with quotes or
without, values that are strings, `false` or lists of strings, and lines that give a key
its value or open a table, with blanks, empty lines and trailing commas where they may
stand. That is a grammar (`Relink.Toml.Lines`), and what is written by it is read as the
statements that are meant (`Relink.Toml.Lines.ofText?_eq`).

The grammar is not all of TOML, so nothing is said of texts outside of it. A string of
no characters needs some care: behind its two quotes there must not come a third, which
would open a string on several lines, and nothing that may follow a value is one.
-/

namespace Relink

namespace Toml

/-! ### Blanks and line ends -/

/-- Blanks, which may stand inside a line. -/
def IsGap (cs : List Char) : Prop := ∀ c ∈ cs, isBlank c = true

/-- Blanks and line ends, which may stand between lines and inside a list. -/
def IsFiller (cs : List Char) : Prop := ∀ c ∈ cs, isBlank c = true ∨ c = '\n'

/-- A character that says something: neither a blank nor a part of a line end, no comment
begins with it, and it is no byte order mark. -/
def IsSign (c : Char) : Prop :=
  isBlank c = false ∧ c ≠ '\n' ∧ c ≠ '\r' ∧ c ≠ '#' ∧ c ≠ '\ufeff'

section Gaps

variable {c : Char} {g : List Char}

theorem isGap_nil : IsGap [] := List.forall_mem_nil _

theorem isFiller_nil : IsFiller [] := List.forall_mem_nil _

theorem IsGap.isFiller (h : IsGap g) : IsFiller g := fun c hc => .inl (h c hc)

theorem IsGap.skipBlanks_append (h : IsGap g) (cs : List Char) :
    skipBlanks (g ++ cs) = skipBlanks cs := List.dropWhile_append_of_pos h

theorem skipBlanks_cons (h : isBlank c = false) (cs : List Char) :
    skipBlanks (c :: cs) = c :: cs := by
  rw [skipBlanks, List.dropWhile_cons_of_neg (by simp [h])]

theorem IsFiller.skipFiller_append (h : IsFiller g) (cs : List Char) :
    skipFiller false (g ++ cs) = skipFiller false cs := by
  induction g with
  | nil => rfl
  | cons c g ih =>
    obtain ⟨hc, hg⟩ := List.forall_mem_cons.1 h
    have hblank : isBlank c = true → c = ' ' ∨ c = '\t' := by simp [isBlank]
    rw [List.cons_append, ← ih hg]
    rcases hc with hc | rfl
    · rcases hblank hc with rfl | rfl <;> rfl
    · rfl

/-- What may stand between lines ends with the first sign. -/
theorem IsFiller.skipFiller_sign (hg : IsFiller g) (hc : IsSign c) (cs : List Char) :
    skipFiller false (g ++ c :: cs) = some (c :: cs) := by
  obtain ⟨hblank, hline, hreturn, hcomment, -⟩ := hc
  have hline : c = '\n' → False := hline
  rw [hg.skipFiller_append]
  simp [skipFiller, hblank, hreturn, hcomment]

end Gaps

/-! ### Strings -/

/-- The value of hexadecimal digits, after the value of those before them. -/
def hexValue? : Nat → List Char → Option Nat
  | n, [] => some n
  | n, c :: cs => (hexDigit? c).bind fun d => hexValue? (16 * n + d) cs

/-- One character of a basic string, as it is spelled. -/
inductive Piece : List Char → Char → Prop
  /-- It stands for itself. -/
  | plain {c : Char} (quote : c ≠ '"') (backslash : c ≠ '\\') (ordinary : isOrdinary c = true) :
      Piece [c] c
  /-- A backslash with a letter or a mark. -/
  | escape {e c : Char} (h : escaped? e = some c) : Piece ['\\', e] c
  /-- The digits of its code point. -/
  | codePoint {l c : Char} {width n : Nat} {ds : List Char}
      (letter : codePointWidth? l = some width) (length : ds.length = width)
      (value : hexValue? 0 ds = some n) (char : charOf? n = some c) :
      Piece ('\\' :: l :: ds) c

/-- The characters of a basic string between its quotes. -/
inductive Pieces : List Char → List Char → Prop
  /-- There is none. -/
  | nil : Pieces [] []
  /-- There is one more. -/
  | cons {p cs s : List Char} {c : Char} (h : Piece p c) : Pieces cs s → Pieces (p ++ cs) (c :: s)

/-- A basic string in its quotes. -/
def IsQuoted (cs : List Char) (s : String) : Prop :=
  ∃ body, cs = '"' :: body ++ ['"'] ∧ Pieces body s.toList

section Strings

variable {p cs body acc : List Char} {c e : Char} {s : String}

theorem codePointWidth?_of_escaped? (h : escaped? c = some e) : codePointWidth? c = none := by
  unfold escaped? at h
  split at h <;> first | rfl | cases h

/-- The digits of a code point are taken up one by one, and the last one settles it. -/
theorem scan_codePoint {ds : List Char} {left value n : Nat} (hlength : ds.length = left + 1)
    (hvalue : hexValue? value ds = some n) (hchar : charOf? n = some c) (rest : List Char) :
    (StringKind.basic false).scan (.codePoint (left + 1) value) acc (ds ++ rest) =
      (StringKind.basic false).scan .plain (c :: acc) rest := by
  induction left generalizing ds value with
  | zero =>
    obtain ⟨d, rfl⟩ := List.length_eq_one_iff.1 hlength
    obtain ⟨x, hx, hn⟩ := Option.bind_eq_some_iff.1 hvalue
    cases hn
    simp [StringKind.scan, StringKind.step, hx, hchar]
  | succ left ih =>
    rcases ds with _ | ⟨d, ds⟩
    · cases hlength
    obtain ⟨x, hx, hn⟩ := Option.bind_eq_some_iff.1 hvalue
    rw [← ih (Nat.succ.inj hlength) hn]
    simp [StringKind.scan, StringKind.step, hx]

/-- A character is read, however it is spelled. -/
theorem Piece.scan_append (h : Piece p c) (rest : List Char) :
    (StringKind.basic false).scan .plain acc (p ++ rest) =
      (StringKind.basic false).scan .plain (c :: acc) rest := by
  cases h with
  | plain quote backslash ordinary =>
    simp [StringKind.scan, StringKind.step, StringKind.plainStep, StringKind.basic, quote,
      backslash, ordinary]
  | escape h =>
    simp [StringKind.scan, StringKind.step, StringKind.plainStep, StringKind.basic,
      codePointWidth?_of_escaped? h, h]
  | @codePoint l _ width n ds letter length value char =>
    obtain ⟨left, rfl⟩ : ∃ left, width = left + 1 := by
      unfold codePointWidth? at letter
      split at letter <;> cases letter <;> exact ⟨_, rfl⟩
    rw [← scan_codePoint length value char rest]
    simp [StringKind.scan, StringKind.step, StringKind.plainStep, StringKind.basic, letter]

theorem Pieces.scan_append {t : List Char} (h : Pieces body t) (rest : List Char) :
    (StringKind.basic false).scan .plain acc (body ++ rest) =
      (StringKind.basic false).scan .plain (t.reverse ++ acc) rest := by
  induction h generalizing acc with
  | nil => rfl
  | cons h _ ih => rw [List.append_assoc, h.scan_append, ih]; simp

/-- The end of a string on one line is told by its quote, whatever follows. -/
theorem scan_quote (rest : List Char) :
    (StringKind.basic false).scan .plain acc ('"' :: rest) = some (acc.reverse, rest) := by
  rcases rest with _ | ⟨c, rest⟩ <;>
    simp [StringKind.scan, StringKind.step, StringKind.plainStep, StringKind.basic,
      StringKind.finish]

/-- **A string between its quotes is read.** -/
theorem Pieces.read_eq (h : Pieces body s.toList) (rest : List Char) :
    (StringKind.basic false).read (body ++ '"' :: rest) = some (s, rest) := by
  have hscan : (StringKind.basic false).scan .plain [] (body ++ '"' :: rest) =
      some (s.toList, rest) := by
    rw [h.scan_append, scan_quote]
    simp
  have hmultiline : (StringKind.basic false).multiline = false := rfl
  simp [StringKind.read, hmultiline, hscan]

theorem IsQuoted.exists_cons (h : IsQuoted cs s) : ∃ t, cs = '"' :: t := by
  obtain ⟨body, rfl, -⟩ := h
  exact ⟨_, rfl⟩

theorem Piece.ne_quote (h : Piece p c) : ∃ d t, p = d :: t ∧ d ≠ '"' := by
  cases h with
  | plain quote _ _ => exact ⟨_, _, rfl, quote⟩
  | escape | codePoint => exact ⟨_, _, rfl, by decide⟩

end Strings

/-! ### Keys -/

/-- A key of one part, as it is written: without quotes, or as a basic string. -/
inductive IsKey : List Char → String → Prop
  /-- There are no quotes. -/
  | bare {cs : List Char} (ne : cs ≠ []) (bare : ∀ c ∈ cs, isBare c = true) :
      IsKey cs (String.ofList cs)
  /-- It is a basic string. -/
  | quoted {cs : List Char} {s : String} (h : IsQuoted cs s) : IsKey cs s

section Keys

variable {cs g g' rest : List Char} {c : Char} {k : String}

theorem isSign_of_isBare (h : isBare c = true) :
    IsSign c ∧ c ≠ '[' ∧ c ≠ '"' ∧ c ≠ '\'' := by
  have hne {d : Char} (hd : isBare d = false) : c ≠ d := by
    rintro rfl
    rw [hd] at h
    cases h
  have hblank : isBlank c = false := by
    simp [isBlank, hne (show isBare ' ' = false by decide),
      hne (show isBare '\t' = false by decide)]
  exact ⟨⟨hblank, hne (by decide), hne (by decide), hne (by decide), hne (by decide)⟩,
    hne (by decide), hne (by decide), hne (by decide)⟩

/-- A key begins with a sign that opens no table. -/
theorem IsKey.begins (h : IsKey cs k) : ∃ c t, cs = c :: t ∧ IsSign c ∧ c ≠ '[' := by
  cases h with
  | bare ne bare =>
    obtain ⟨c, t, rfl⟩ := List.exists_cons_of_ne_nil ne
    have hc := isSign_of_isBare (bare c List.mem_cons_self)
    exact ⟨c, t, rfl, hc.1, hc.2.1⟩
  | quoted h =>
    obtain ⟨t, rfl⟩ := h.exists_cons
    exact ⟨'"', t, rfl, by simp [IsSign, isBlank], by decide⟩

theorem IsKey.readKeyPart_append (h : IsKey cs k) (hrest : ∀ c ∈ rest.head?, isBare c = false) :
    readKeyPart (cs ++ rest) = some (k, rest) := by
  cases h with
  | quoted h =>
    obtain ⟨body, rfl, hbody⟩ := h
    simpa [readKeyPart] using hbody.read_eq rest
  | bare ne bare =>
    have htake : (cs ++ rest).takeWhile isBare = cs := by
      rw [List.takeWhile_append_of_pos bare]
      rcases rest with _ | ⟨d, rest⟩
      · simp
      · rw [List.takeWhile_cons_of_neg (by simp [hrest d rfl]), List.append_nil]
    obtain ⟨c, t, rfl⟩ := List.exists_cons_of_ne_nil ne
    obtain ⟨-, -, hquote, hliteral⟩ := isSign_of_isBare (bare c List.mem_cons_self)
    rw [List.cons_append] at htake ⊢
    rw [readKeyPart.eq_3 _ (by simp [hquote]) (by simp [hliteral])]
    simp [htake]

/-- A key is read with the blanks around it, up to the sign that ends it. -/
theorem IsKey.readKey_append (h : IsKey cs k) (hg : IsGap g) (hg' : IsGap g')
    (hc : c = '=' ∨ c = ']') (rest : List Char) :
    readKey (g ++ cs ++ g' ++ c :: rest) = some ([k], c :: rest) := by
  have hend : isBare c = false ∧ isBlank c = false ∧ c ≠ '.' := by
    rcases hc with rfl | rfl <;> decide
  have hfollows : ∀ d ∈ (g' ++ c :: rest).head?, isBare d = false := by
    intro d hd
    rcases g' with _ | ⟨b, g'⟩
    · obtain rfl : c = d := by simpa using hd
      exact hend.1
    · obtain rfl : b = d := by simpa using hd
      rw [Bool.eq_false_iff]
      intro hb
      have := (isSign_of_isBare hb).1.1
      rw [hg' b List.mem_cons_self] at this
      cases this
  have hskip : skipBlanks (g ++ (cs ++ (g' ++ c :: rest))) = cs ++ (g' ++ c :: rest) := by
    obtain ⟨d, t, rfl, hd, -⟩ := h.begins
    rw [hg.skipBlanks_append, List.cons_append, skipBlanks_cons hd.1]
  have hskip' : skipBlanks (g' ++ c :: rest) = c :: rest := by
    rw [hg'.skipBlanks_append, skipBlanks_cons hend.2.1]
  rw [List.append_assoc, List.append_assoc]
  show readKeyParts (79 + 1) _ = _
  rw [readKeyParts, hskip, h.readKeyPart_append hfollows]
  simp [hskip', hend.2.2]

end Keys

/-! ### Values -/

/-- A list of basic strings, as it is written from behind its bracket; there may be a
comma after the last one. -/
inductive IsNames : List Char → List String → Prop
  /-- There is no more. -/
  | close {g : List Char} (hg : IsFiller g) : IsNames (g ++ [']']) []
  /-- There is a last one. -/
  | last {g p g' : List Char} {n : String} (hg : IsFiller g) (h : IsQuoted p n)
      (hg' : IsFiller g') : IsNames (g ++ p ++ g' ++ [']']) [n]
  /-- There is one more. -/
  | cons {g p g' cs : List Char} {n : String} {ns : List String} (hg : IsFiller g)
      (h : IsQuoted p n) (hg' : IsFiller g') :
      IsNames cs ns → IsNames (g ++ p ++ g' ++ ',' :: cs) (n :: ns)

/-- A string as a value. -/
def Value.ofText (s : String) : Value := .scalar (.string s)

/-- A list of strings as a value. -/
def Value.ofNames (ns : List String) : Value := .array (ns.map .ofText)

/-- `false` as a value. -/
def Value.no : Value := .scalar (.boolean false)

/-- The values in which settings are written down. -/
inductive IsValue : List Char → Value → Prop
  /-- A string. -/
  | text {cs : List Char} {s : String} (h : IsQuoted cs s) : IsValue cs (.ofText s)
  /-- A list of strings. -/
  | names {cs : List Char} {ns : List String} (h : IsNames cs ns) :
      IsValue ('[' :: cs) (.ofNames ns)
  /-- False. -/
  | no : IsValue ['f', 'a', 'l', 's', 'e'] .no

/-- What may follow a value. -/
def Follows (cs : List Char) : Prop :=
  ∀ c ∈ cs.head?, isBlank c = true ∨ c = '\n' ∨ c = ',' ∨ c = ']'

section Values

variable {cs rest : List Char} {s : String} {ns : List String} {v : Value}

theorem IsFiller.follows {g : List Char} (hg : IsFiller g) (hrest : Follows rest) :
    Follows (g ++ rest) := by
  rcases g with _ | ⟨c, g⟩
  · exact hrest
  · intro d hd
    obtain rfl : c = d := by simpa using hd
    rcases hg c List.mem_cons_self with hc | rfl
    · exact .inl hc
    · exact .inr (.inl rfl)

/-- No quote and no character of a token follows a value. -/
theorem Follows.not_token (h : Follows rest) {c : Char} (hc : c ∈ rest.head?) :
    c ≠ '"' ∧ isTokenChar c = false := by
  have hblank : isBlank c = true → c = ' ' ∨ c = '\t' := by simp [isBlank]
  rcases h c hc with hb | rfl | rfl | rfl
  · rcases hblank hb with rfl | rfl <;> decide
  all_goals decide

theorem IsQuoted.readScalar_append (h : IsQuoted cs s) (hrest : Follows rest) :
    readScalar (cs ++ rest) = some (.string s, rest) := by
  obtain ⟨body, rfl, hbody⟩ := h
  have hread := hbody.read_eq rest
  -- three quotes in a row would open a string on several lines
  have hthree : ∀ t, '"' :: (body ++ '"' :: rest) ≠ '"' :: '"' :: '"' :: t := by
    intro t ht
    generalize s.toList = cs at hbody
    cases hbody with
    | nil =>
      obtain rfl : rest = '"' :: t := by simpa using ht
      exact (hrest.not_token (c := '"') rfl).1 rfl
    | cons hp _ =>
      obtain ⟨d, u, rfl, hd⟩ := hp.ne_quote
      simp only [List.cons_append, List.cons.injEq] at ht
      exact hd ht.2.1
  have happend : '"' :: body ++ ['"'] ++ rest = '"' :: (body ++ '"' :: rest) := by simp
  rw [happend]
  unfold readScalar
  split
  · next heq => exact absurd heq (hthree _)
  · next heq => cases heq
  · next heq =>
    cases heq
    rw [hread]
    rfl
  · next heq => cases heq
  · next h _ => exact absurd rfl (h _)

theorem readScalar_no (hrest : Follows rest) :
    readScalar ('f' :: 'a' :: 'l' :: 's' :: 'e' :: rest) = some (.boolean false, rest) := by
  have htake : rest.takeWhile isTokenChar = [] := by
    rcases rest with _ | ⟨d, rest⟩
    · rfl
    · rw [List.takeWhile_cons_of_neg (by simp [(hrest.not_token (c := d) rfl).2])]
  have htoken : readToken ('f' :: 'a' :: 'l' :: 's' :: 'e' :: rest) =
      (['f', 'a', 'l', 's', 'e'], rest) := by
    simp [readToken, isTokenChar, htake, readDate, readField, decimalDigit?]
  simp [readScalar, htoken, Scalar.ofToken?]

theorem readValue_of_readScalar {depth : Nat} {c : Char} {t : List Char} {x : Scalar}
    (hc : c ≠ '[' ∧ c ≠ '\x7b') (h : readScalar (c :: t) = some (x, rest)) :
    readValue depth (c :: t) = some (.scalar x, rest) := by
  cases depth with
  | zero => simp [readValue, h]
  | succ depth => simp [readValue, h, hc]

theorem IsQuoted.readValue_append (h : IsQuoted cs s) (depth : Nat) (hrest : Follows rest) :
    readValue depth (cs ++ rest) = some (.ofText s, rest) := by
  have hread := h.readScalar_append hrest
  obtain ⟨t, rfl⟩ := h.exists_cons
  exact readValue_of_readScalar (by decide) hread

theorem isSign_of_mark {c : Char} (hc : c = ',' ∨ c = ']' ∨ c = '"') : IsSign c := by
  rcases hc with rfl | rfl | rfl <;> simp [IsSign, isBlank]

theorem follows_cons {c : Char} (hc : c = '\n' ∨ c = ',' ∨ c = ']') (rest : List Char) :
    Follows (c :: rest) := by
  intro d hd
  obtain rfl : c = d := by simpa using hd
  exact .inr hc

/-- One round reads one string of a list, and the mark behind it tells whether there is
another one. -/
theorem readItems_text {g p g' : List Char} {n : String} {c d : Char} (hg : IsFiller g)
    (h : IsQuoted p n) (hg' : IsFiller g') (hc : c = ',' ∨ c = ']') (depth : Nat)
    (rest rounds : List Char) (items : List Value) :
    readItems (readValue depth) (d :: rounds) items (g ++ (p ++ (g' ++ c :: rest))) =
      if c = ',' then readItems (readValue depth) rounds (.ofText n :: items) rest
      else some ((.ofText n :: items).reverse, rest) := by
  have hread := h.readValue_append depth (hg'.follows (follows_cons (.inr hc) rest))
  have hskip : skipFiller false (g' ++ c :: rest) = some (c :: rest) := by
    refine hg'.skipFiller_sign (isSign_of_mark ?_) rest
    rcases hc with rfl | rfl <;> decide
  obtain ⟨t, rfl⟩ := h.exists_cons
  rw [List.cons_append] at hread ⊢
  have hskip' := hg.skipFiller_sign (c := '"') (isSign_of_mark (by decide)) (t ++ (g' ++ c :: rest))
  rcases hc with rfl | rfl <;> simp [readItems, hskip', hread, hskip]

/-- **A list of strings is read**, in as many rounds as it has characters. -/
theorem IsNames.readItems_append (h : IsNames cs ns) (depth : Nat) (rest rounds : List Char)
    (hrounds : cs.length ≤ rounds.length) (items : List Value) :
    readItems (readValue depth) rounds items (cs ++ rest) =
      some (items.reverse ++ ns.map .ofText, rest) := by
  induction h generalizing rounds items with
  | @close g hg =>
    rcases rounds with _ | ⟨_, rounds⟩
    · simp at hrounds
    have hskip : skipFiller false (g ++ ']' :: rest) = some (']' :: rest) :=
      hg.skipFiller_sign (isSign_of_mark (by decide)) rest
    simp [readItems, hskip]
  | @last g p g' n hg h hg' =>
    rcases rounds with _ | ⟨_, rounds⟩
    · simp at hrounds
    simp [readItems_text hg h hg' (.inr rfl)]
  | @cons g p g' cs n ns hg h hg' _ ih =>
    rcases rounds with _ | ⟨_, rounds⟩
    · simp at hrounds
    have hlength : cs.length ≤ rounds.length := by
      simp only [List.length_append, List.length_cons] at hrounds
      omega
    simp [readItems_text hg h hg' (.inl rfl), ih rounds hlength]

/-- **A value is read**, whatever follows it that may. -/
theorem IsValue.readValue_append (h : IsValue cs v) (depth : Nat) (hrest : Follows rest) :
    readValue (depth + 1) (cs ++ rest) = some (v, rest) := by
  cases h with
  | text h => exact h.readValue_append (depth + 1) hrest
  | no => exact readValue_of_readScalar (by decide) (readScalar_no hrest)
  | @names cs ns h =>
    have hread := h.readItems_append depth rest (cs ++ rest) (by simp) []
    simp [readValue, hread, Value.ofNames]

theorem IsValue.begins (h : IsValue cs v) : ∃ c t, cs = c :: t ∧ isBlank c = false := by
  cases h with
  | text h =>
    obtain ⟨t, rfl⟩ := h.exists_cons
    exact ⟨_, t, rfl, rfl⟩
  | names | no => exact ⟨_, _, rfl, rfl⟩

end Values

/-! ### Lines -/

/-- What a line says: a key with its value, or the header of a table. -/
inductive IsLine : List Char → Statement → Prop
  /-- A key with its value. -/
  | pair {p g g' cs : List Char} {k : String} {v : Value} (key : IsKey p k) (hg : IsGap g)
      (hg' : IsGap g') (value : IsValue cs v) : IsLine (p ++ g ++ '=' :: (g' ++ cs)) (.pair [k] v)
  /-- The header of a table. -/
  | table {g p g' : List Char} {k : String} (hg : IsGap g) (key : IsKey p k) (hg' : IsGap g') :
      IsLine ('[' :: (g ++ p ++ g' ++ [']'])) (.table [k])

/-- **Lines one after the other**, each with what it says. -/
inductive Lines : List Char → List Statement → Prop
  /-- There is no more. -/
  | nil {g : List Char} (hg : IsFiller g) : Lines g []
  /-- There is a last one, and the document ends with it. -/
  | last {g l g' : List Char} {s : Statement} (hg : IsFiller g) (line : IsLine l s)
      (hg' : IsGap g') : Lines (g ++ l ++ g') [s]
  /-- There is one more. -/
  | cons {g l g' cs : List Char} {s : Statement} {ss : List Statement} (hg : IsFiller g)
      (line : IsLine l s) (hg' : IsGap g') :
      Lines cs ss → Lines (g ++ l ++ g' ++ '\n' :: cs) (s :: ss)

section Lines

variable {l cs g rest : List Char} {s : Statement} {ss : List Statement}

theorem IsLine.begins (h : IsLine l s) : ∃ c t, l = c :: t ∧ IsSign c := by
  cases h with
  | pair key _ _ _ =>
    obtain ⟨c, t, rfl, hc, -⟩ := key.begins
    exact ⟨c, _, rfl, hc⟩
  | table => exact ⟨'[', _, rfl, by simp [IsSign, isBlank]⟩

/-- **A line is read**, whatever follows it that may. -/
theorem IsLine.readStatement_append (h : IsLine l s) (hrest : Follows rest) :
    readStatement (l ++ rest) = some (s, rest) := by
  cases h with
  | @table g p g' k hg key hg' =>
    have hread := key.readKey_append hg hg' (.inr rfl) rest
    -- a second bracket would open one more table of an array
    obtain ⟨c, t, hct, hc⟩ : ∃ c t, g ++ p ++ g' ++ ']' :: rest = c :: t ∧ c ≠ '[' := by
      rcases g with _ | ⟨b, g⟩
      · obtain ⟨c, t, rfl, -, hc⟩ := key.begins
        exact ⟨c, _, rfl, hc⟩
      · refine ⟨b, _, rfl, ?_⟩
        rintro rfl
        cases hg '[' List.mem_cons_self
    have happend : '[' :: (g ++ p ++ g' ++ [']']) ++ rest = '[' :: c :: t := by
      rw [← hct]
      simp
    rw [hct] at hread
    rw [happend]
    simp [readStatement, hc, hread]
  | @pair p g g' cs k v key hg hg' value =>
    have hread := key.readKey_append isGap_nil hg (.inl rfl)
      (g' ++ (cs ++ rest))
    have hvalue : readValue depthLimit (cs ++ rest) = some (v, rest) :=
      value.readValue_append 79 hrest
    have hskip : skipBlanks (g' ++ (cs ++ rest)) = cs ++ rest := by
      obtain ⟨d, u, rfl, hd⟩ := value.begins
      rw [hg'.skipBlanks_append, List.cons_append, skipBlanks_cons hd]
    obtain ⟨c, t, rfl, -, hc⟩ := key.begins
    have hpair : readPair (some ∘ skipBlanks) (readValue depthLimit)
        (c :: t ++ g ++ '=' :: (g' ++ cs) ++ rest) = some (([k], v), rest) := by
      simp only [List.nil_append, List.append_assoc, List.cons_append] at hread ⊢
      simp [readPair, hread, skipBlanks_cons (show isBlank '=' = false by decide), hskip, hvalue]
    simp only [List.append_assoc, List.cons_append] at hpair ⊢
    simp [readStatement, hc, hpair]

theorem IsGap.skipLineEnd_append (hg : IsGap g) (rest : List Char) :
    skipLineEnd (g ++ '\n' :: rest) = some rest := by
  have hskip := hg.skipBlanks_append ('\n' :: rest)
  rw [skipBlanks_cons (by decide)] at hskip
  simp [skipLineEnd, hskip]

theorem IsGap.skipLineEnd_eq (hg : IsGap g) : skipLineEnd g = some [] := by
  have hskip : skipBlanks g = [] := List.dropWhile_eq_nil_iff.2 hg
  simp [skipLineEnd, hskip]

/-- One round reads one line. -/
theorem readStatements_line (hg : IsFiller g) (line : IsLine l s) (hrest : Follows rest)
    {rest' : List Char} (hend : skipLineEnd rest = some rest') {c : Char} (rounds : List Char)
    (acc : List Statement) :
    readStatements (c :: rounds) acc (g ++ (l ++ rest)) =
      readStatements rounds (s :: acc) rest' := by
  have hread := line.readStatement_append hrest
  have hskip : skipFiller false (g ++ (l ++ rest)) = some (l ++ rest) := by
    obtain ⟨d, t, rfl, hd⟩ := line.begins
    exact hg.skipFiller_sign hd _
  obtain ⟨d, t, rfl, -⟩ := line.begins
  rw [List.cons_append] at hread hskip ⊢
  simp [readStatements, hskip, hread, hend]

theorem readStatements_nil (hg : IsFiller g) {rounds : List Char}
    (hrounds : g.length ≤ rounds.length) (acc : List Statement) :
    readStatements rounds acc g = some acc.reverse := by
  have hskip := hg.skipFiller_append []
  rw [List.append_nil] at hskip
  rcases rounds with _ | ⟨_, rounds⟩
  · obtain rfl := List.length_eq_zero_iff.1 (Nat.le_zero.1 hrounds)
    rfl
  · simp [readStatements, hskip, skipFiller]

/-- **Lines are read one after the other**, in as many rounds as they have characters. -/
theorem Lines.readStatements_eq (h : Lines cs ss) {rounds : List Char}
    (hrounds : cs.length ≤ rounds.length) (acc : List Statement) :
    readStatements rounds acc cs = some (acc.reverse ++ ss) := by
  induction h generalizing rounds acc with
  | nil hg => rw [readStatements_nil hg hrounds, List.append_nil]
  | @last g l g' s hg line hg' =>
    obtain ⟨d, t, rfl, -⟩ := line.begins
    rcases rounds with _ | ⟨_, rounds⟩
    · simp at hrounds
    have hfollows : Follows g' := fun c hc => .inl (hg' c (List.mem_of_mem_head? hc))
    rw [List.append_assoc, readStatements_line hg line hfollows hg'.skipLineEnd_eq,
      readStatements_nil isFiller_nil (Nat.zero_le _)]
    simp
  | @cons g l g' cs s ss hg line hg' _ ih =>
    rcases rounds with _ | ⟨_, rounds⟩
    · simp at hrounds
    have hfollows : Follows (g' ++ '\n' :: cs) := hg'.isFiller.follows (follows_cons (by simp) cs)
    have hlength : cs.length ≤ rounds.length := by
      simp only [List.length_append, List.length_cons] at hrounds
      omega
    rw [List.append_assoc, List.append_assoc,
      readStatements_line hg line hfollows (hg'.skipLineEnd_append cs), ih hlength]
    simp

theorem head_ne_of_isFiller (hg : IsFiller g) {t : List Char}
    (ht : ∀ c ∈ t.head?, c ≠ '\ufeff') : ∀ c ∈ (g ++ t).head?, c ≠ '\ufeff' := by
  rcases g with _ | ⟨b, g⟩
  · exact ht
  · intro c hc
    obtain rfl : b = c := by simpa using hc
    rintro rfl
    simpa [isBlank] using hg '\ufeff' List.mem_cons_self

theorem Lines.head_ne (h : Lines cs ss) : ∀ c ∈ cs.head?, c ≠ '\ufeff' := by
  have hline {l t : List Char} {s : Statement} (line : IsLine l s) :
      ∀ c ∈ (l ++ t).head?, c ≠ '\ufeff' := by
    obtain ⟨d, u, rfl, hd⟩ := line.begins
    intro c hc
    obtain rfl : d = c := by simpa using hc
    exact hd.2.2.2.2
  cases h with
  | nil hg => simpa using head_ne_of_isFiller hg (t := []) (by simp)
  | last hg line _ | cons hg line _ _ =>
    simp only [List.append_assoc]
    exact head_ne_of_isFiller hg (hline line)

/-- **What is written is read as what is meant.** -/
theorem Lines.ofText?_eq (h : Lines cs ss) : Statement.ofText? cs = some ss := by
  have hread := h.readStatements_eq (Nat.le_refl _) []
  rcases cs with _ | ⟨c, cs⟩
  · exact hread
  · have hc : c ≠ '\ufeff' := h.head_ne c rfl
    simpa [Statement.ofText?, hc] using hread

end Lines

end Toml

end Relink
