import Relink.Json.Printer
import Relink.Proofs.SettingsJson

/-!
# Printed JSON

What is printed is JSON again, and spells what has been printed. A text is printed
character by character: of its bytes in UTF-8 none can be taken for a mark, so all but
the quote, the backslash and the controls stand for themselves
(`Relink.Json.textRest_printText`). Values follow from their parts (`Relink.Json.Prints`).

Printed bytes are also a text, in UTF-8, so that they can be read where a text is wanted.
-/

namespace Relink

namespace Json

/-! ### Characters -/

section Characters

variable {c : Char} {bs content mid rest : Bytes}

/-- An ASCII character is one byte. -/
theorem utf8EncodeChar_of_lt (h : c.toNat < 0x80) : String.utf8EncodeChar c = [byte c] := by
  have hc : c.val.toNat ≤ 127 := Nat.le_of_lt_succ h
  simp only [String.utf8EncodeChar, hc, if_true]
  rfl

/-- All bytes of any other character are beyond ASCII. -/
theorem le_toNat_of_mem_utf8EncodeChar (h : 0x80 ≤ c.toNat) {b : UInt8}
    (hb : b ∈ String.utf8EncodeChar c) : 0x80 ≤ b.toNat := by
  have hc : ¬c.val.toNat ≤ 127 := Nat.not_le_of_lt h
  simp only [String.utf8EncodeChar, hc, if_false] at hb
  split at hb
  · simp only [List.mem_cons, List.not_mem_nil, or_false] at hb
    rcases hb with rfl | rfl <;> simp only [UInt8.toNat_ofNat'] <;> omega
  · split at hb
    · simp only [List.mem_cons, List.not_mem_nil, or_false] at hb
      rcases hb with rfl | rfl | rfl <;> simp only [UInt8.toNat_ofNat'] <;> omega
    · simp only [List.mem_cons, List.not_mem_nil, or_false] at hb
      rcases hb with rfl | rfl | rfl | rfl <;> simp only [UInt8.toNat_ofNat'] <;> omega

/-- A byte that stands for itself in a text. -/
def IsPlain (b : UInt8) : Prop := b ≠ byte '"' ∧ b ≠ byte '\\' ∧ ¬b < 0x20

theorem pieces_of_isPlain (h : ∀ b ∈ bs, IsPlain b) (hm : Pieces mid content rest) :
    Pieces (bs ++ mid) (bs ++ content) rest := by
  induction bs with
  | nil => exact hm
  | cons b bs ih =>
    rw [List.forall_mem_cons] at h
    show Pieces (b :: (bs ++ mid)) ([b] ++ (bs ++ content)) rest
    exact .cons (.plain h.1.1 h.1.2.1 h.1.2.2) (ih h.2)

theorem toNat_byte (h : c.toNat < 0x80) : (byte c).toNat = c.toNat := by
  show c.val.toNat % 256 = c.val.toNat
  exact Nat.mod_eq_of_lt (Nat.lt_trans h (by decide))

theorem isPlain_of_mem_utf8EncodeChar (hq : c ≠ '"') (hs : c ≠ '\\') (hc : 0x20 ≤ c.toNat)
    {b : UInt8} (hb : b ∈ String.utf8EncodeChar c) : IsPlain b := by
  have hne {d : Char} (hd : d.toNat < 0x80) (h : c ≠ d) : b ≠ byte d := by
    rintro rfl
    by_cases hlt : c.toNat < 0x80
    · rw [utf8EncodeChar_of_lt hlt, List.mem_singleton] at hb
      have h' := congrArg UInt8.toNat hb
      rw [toNat_byte hd, toNat_byte hlt] at h'
      exact h (Char.toNat_inj.1 h'.symm)
    · have := le_toNat_of_mem_utf8EncodeChar (Nat.le_of_not_lt hlt) hb
      rw [toNat_byte hd] at this
      omega
  refine ⟨hne (by decide) hq, hne (by decide) hs, ?_⟩
  rw [UInt8.lt_iff_toNat_lt]
  by_cases hlt : c.toNat < 0x80
  · rw [utf8EncodeChar_of_lt hlt, List.mem_singleton] at hb
    rw [hb, toNat_byte hlt]
    exact Nat.not_lt_of_le hc
  · have := le_toNat_of_mem_utf8EncodeChar (Nat.le_of_not_lt hlt) hb
    have h32 : (0x20 : UInt8).toNat = 32 := rfl
    omega

/-- The digits that a control character is printed with have its value. -/
theorem hexValue?_hexByte {n : Nat} (h : n < 0x20) :
    hexValue? 0 [byte '0', byte '0', hexByte (n / 16), hexByte (n % 16)] = some n := by
  have hall : ∀ n : Fin 0x20, hexValue? 0
      [byte '0', byte '0', hexByte (n.val / 16), hexByte (n.val % 16)] = some n.val := by decide
  exact hall ⟨n, h⟩

/-- A character is printed so that its bytes are read again. -/
theorem pieces_printChar (c : Char) (hm : Pieces mid content rest) :
    Pieces (printChar c ++ mid) (String.utf8EncodeChar c ++ content) rest := by
  by_cases hmark : c = '"' ∨ c = '\\'
  · have hprint : printChar c = [byte '\\', byte c] := if_pos hmark
    rw [hprint]
    rcases hmark with rfl | rfl
    · exact .cons (.escape (by decide)) hm
    · exact .cons (.escape (by decide)) hm
  by_cases hcontrol : c.toNat < 0x20
  · have hprint : printChar c =
        [byte '\\', byte 'u', byte '0', byte '0', hexByte (c.toNat / 16), hexByte (c.toNat % 16)] := by
      rw [printChar, if_neg hmark, if_pos hcontrol]
    have hlead : isLead c.toNat = false := by simp [isLead]; omega
    have htrail : isTrail c.toNat = false := by simp [isTrail]; omega
    have hpiece (rest : Bytes) := Piece.unit (@UnitEscape.mk _ _ _ _ _ rest
      (hexValue?_hexByte hcontrol)) hlead htrail
    rw [Char.ofNat_toNat] at hpiece
    rw [hprint]
    exact .cons (hpiece mid) hm
  · have hprint : printChar c = String.utf8EncodeChar c := by
      rw [printChar, if_neg hmark, if_neg hcontrol]
    rw [not_or] at hmark
    rw [hprint]
    exact pieces_of_isPlain (fun b hb =>
      isPlain_of_mem_utf8EncodeChar hmark.1 hmark.2 (Nat.le_of_not_lt hcontrol) hb) hm

/-- **A printed text is read again.** -/
theorem textRest_printText (s : String) (rest : Bytes) :
    TextRest (s.toList.flatMap printChar ++ byte '"' :: rest) s rest := by
  rw [TextRest, Text.encode]
  induction s.toList with
  | nil => exact .close rest
  | cons c cs ih =>
    rw [List.flatMap_cons, List.flatMap_cons, List.append_assoc]
    exact pieces_printChar c ih

end Characters

/-! ### Values -/

/-- A value is printed as what it is in writing. -/
structure Prints (v : Json) (w : Raw) : Prop where
  /-- In front of any bytes, what is printed spells the value. -/
  spelled : ∀ rest, Spelled (print v rest) w rest
  /-- What is printed is a text. -/
  text : ∃ s : String, ∀ rest, print v rest = Text.encode s ++ rest

section Values

variable {α : Type} {rest : Bytes} {v : Json} {w : Raw}

theorem encode_append (s t : String) :
    Text.encode (s ++ t) = Text.encode s ++ Text.encode t := by
  simp [Text.encode]

/-- What is printed of a character is a text. -/
theorem exists_encode_printChar (c : Char) : ∃ s : String, printChar c = Text.encode s := by
  by_cases hmark : c = '"' ∨ c = '\\'
  · rcases hmark with rfl | rfl
    · exact ⟨"\\\"", by decide⟩
    · exact ⟨"\\\\", by decide⟩
  by_cases hcontrol : c.toNat < 0x20
  · have hall : ∀ n : Fin 0x20,
        [byte '\\', byte 'u', byte '0', byte '0', hexByte (n.val / 16), hexByte (n.val % 16)] =
          Text.encode (String.ofList ['\\', 'u', '0', '0', Nat.digitChar (n.val / 16),
            Nat.digitChar (n.val % 16)]) := by decide
    rw [printChar, if_neg hmark, if_pos hcontrol]
    exact ⟨_, hall ⟨c.toNat, hcontrol⟩⟩
  · refine ⟨String.ofList [c], ?_⟩
    rw [printChar, if_neg hmark, if_neg hcontrol]
    simp [Text.encode]

theorem exists_encode_printText (s : String) :
    ∃ t : String, ∀ rest, printText s rest = Text.encode t ++ rest := by
  have hchars : ∀ cs : List Char, ∃ t : String, cs.flatMap printChar = Text.encode t := by
    intro cs
    induction cs with
    | nil => exact ⟨"", rfl⟩
    | cons c cs ih =>
      obtain ⟨t, ht⟩ := exists_encode_printChar c
      obtain ⟨u, hu⟩ := ih
      exact ⟨t ++ u, by rw [List.flatMap_cons, ht, hu, encode_append]⟩
  obtain ⟨t, ht⟩ := hchars s.toList
  refine ⟨"\"" ++ t ++ "\"", fun rest => ?_⟩
  have hquote : Text.encode "\"" = [byte '"'] := by decide
  simp only [printText, ht, encode_append, hquote]
  simp

theorem prints_string (s : String) : Prints (.string s) (.ofText s) where
  spelled rest := spelled_ofText_iff.2 ⟨_, rfl, textRest_printText s rest⟩
  text := exists_encode_printText s

theorem prints_null : Prints .null .null where
  spelled _ := spelled_iff.2 rfl
  text := ⟨"null", fun _ => rfl⟩

theorem prints_no : Prints (.boolean false) (.boolean false) where
  spelled _ := spelled_iff.2 rfl
  text := ⟨"false", fun _ => rfl⟩

section Items

variable {f : α → Json} {g : α → Raw} {as : List α}

theorem series_printItems (h : ∀ a ∈ as, Prints (f a) (g a)) (rest : Bytes) :
    Series (byte ']') Spelled false (printItems (as.map f) rest) (as.map g) rest := by
  induction as with
  | nil => exact .close (.none _)
  | cons a as ih =>
    rw [List.forall_mem_cons] at h
    exact .item ⟨_, .none _, .none _⟩ (h.1.spelled _) (ih h.2)

theorem exists_encode_printItems (h : ∀ a ∈ as, Prints (f a) (g a)) :
    ∃ s : String, ∀ rest, printItems (as.map f) rest = Text.encode s ++ rest := by
  have hclose : Text.encode "]" = [byte ']'] := by decide
  have hcomma : Text.encode "," = [byte ','] := by decide
  induction as with
  | nil => exact ⟨"]", fun rest => by rw [hclose]; rfl⟩
  | cons a as ih =>
    rw [List.forall_mem_cons] at h
    obtain ⟨s, hs⟩ := h.1.text
    obtain ⟨t, ht⟩ := ih h.2
    refine ⟨"," ++ s ++ t, fun rest => ?_⟩
    simp [printItems, hs, ht, encode_append, hcomma]

theorem prints_array (h : ∀ a ∈ as, Prints (f a) (g a)) :
    Prints (.array (as.map f)) (.array (as.map g)) := by
  have hopen : Text.encode "[" = [byte '['] := by decide
  rcases as with _ | ⟨a, as⟩
  · refine ⟨fun rest => spelled_iff.2 ⟨_, rfl, .close (.none _)⟩, "[]", fun rest => ?_⟩
    have hboth : Text.encode "[]" = [byte '[', byte ']'] := by decide
    rw [hboth]
    rfl
  · rw [List.forall_mem_cons] at h
    obtain ⟨s, hs⟩ := h.1.text
    obtain ⟨t, ht⟩ := exists_encode_printItems h.2
    refine ⟨fun rest => spelled_iff.2 ⟨_, rfl, ?_⟩, "[" ++ s ++ t, fun rest => ?_⟩
    · exact .item (.none _) (h.1.spelled _) (series_printItems h.2 rest)
    · simp [print, hs, ht, encode_append, hopen]

end Items

/-! ### Objects -/

section Members

variable {f : α → Json} {g : α → Raw} {name : α → String} {as : List α}

theorem rawMember_printed {n : String} (h : Prints v w) (rest : Bytes) :
    RawMember Spelled (printText n (byte ':' :: print v rest)) (some n, w) rest :=
  .mk (.known (textRest_printText n _)) (.none _) (.none _) (h.spelled rest)

theorem exists_encode_member (n : String) (h : Prints v w) :
    ∃ s : String, ∀ rest, printText n (byte ':' :: print v rest) = Text.encode s ++ rest := by
  have hcolon : Text.encode ":" = [byte ':'] := by decide
  obtain ⟨s, hs⟩ := exists_encode_printText n
  obtain ⟨t, ht⟩ := h.text
  refine ⟨s ++ ":" ++ t, fun rest => ?_⟩
  simp [hs, ht, encode_append, hcolon]

theorem series_printMembers (h : ∀ a ∈ as, Prints (f a) (g a)) (rest : Bytes) :
    Series (byte '\x7d') (RawMember Spelled) false
      (printMembers (as.map fun a => (name a, f a)) rest)
      (as.map fun a => (some (name a), g a)) rest := by
  induction as with
  | nil => exact .close (.none _)
  | cons a as ih =>
    rw [List.forall_mem_cons] at h
    exact .item ⟨_, .none _, .none _⟩ (rawMember_printed h.1 _) (ih h.2)

theorem exists_encode_printMembers (h : ∀ a ∈ as, Prints (f a) (g a)) :
    ∃ s : String, ∀ rest,
      printMembers (as.map fun a => (name a, f a)) rest = Text.encode s ++ rest := by
  have hclose : Text.encode "\x7d" = [byte '\x7d'] := by decide
  have hcomma : Text.encode "," = [byte ','] := by decide
  induction as with
  | nil => exact ⟨"\x7d", fun rest => by rw [hclose]; rfl⟩
  | cons a as ih =>
    rw [List.forall_mem_cons] at h
    obtain ⟨s, hs⟩ := exists_encode_member (name a) h.1
    obtain ⟨t, ht⟩ := ih h.2
    refine ⟨"," ++ s ++ t, fun rest => ?_⟩
    simp [printMembers, hs, ht, encode_append, hcomma]

theorem prints_object (h : ∀ a ∈ as, Prints (f a) (g a)) :
    Prints (.object (as.map fun a => (name a, f a)))
      (.ofMembers (as.map fun a => (name a, g a))) := by
  have hopen : Text.encode "\x7b" = [byte '\x7b'] := by decide
  rcases as with _ | ⟨a, as⟩
  · refine ⟨fun rest => spelled_iff.2 ⟨_, rfl, .close (.none _)⟩, "\x7b\x7d", fun rest => ?_⟩
    have hboth : Text.encode "\x7b\x7d" = [byte '\x7b', byte '\x7d'] := by decide
    rw [hboth]
    rfl
  · rw [List.forall_mem_cons] at h
    obtain ⟨s, hs⟩ := exists_encode_member (name a) h.1
    obtain ⟨t, ht⟩ := @exists_encode_printMembers _ _ _ name _ h.2
    refine ⟨fun rest => spelled_iff.2 ⟨_, rfl, ?_⟩, "\x7b" ++ s ++ t, fun rest => ?_⟩
    · rw [List.map_map]
      exact .item (.none _) (rawMember_printed h.1 _) (series_printMembers h.2 rest)
    · simp [print, hs, ht, encode_append, hopen]

end Members

/-! ### Documents -/

/-- What is printed is a document, and a text. -/
theorem Prints.document (h : Prints v w) :
    w.Document v.toBytes ∧ ∃ s : String, Text.encode s = v.toBytes := by
  obtain ⟨s, hs⟩ := h.text
  exact ⟨⟨_, [], .none _, h.spelled [], .none []⟩, s, by rw [toBytes, hs, List.append_nil]⟩

end Values

end Json

end Relink
