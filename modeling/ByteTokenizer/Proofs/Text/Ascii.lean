/-
  ASCII: texts in which every character is one byte.

  The encoding of a character beyond ASCII begins with a byte from 0x80 on (`encodeChar_cases`).
  So a text in whose encoding there is no such byte is all ASCII, and its bytes are its characters
  one by one (`ascii_of_encode`).  Reading such bytes as text gives the characters back
  (`lossy_ofChars`).
-/
import ByteTokenizer.Text.Utf8

namespace ByteTokenizer.Text.Utf8

/-- A character of ASCII is its own byte; any other begins with a byte beyond ASCII. -/
theorem encodeChar_cases (c : Char) :
    (c.toNat < 0x80 ∧ String.utf8EncodeChar c = [c.toUInt8])
      ∨ ∃ b ∈ String.utf8EncodeChar c, 0x80 ≤ b := by
  have hbeyond : ∀ n, 0x80 ≤ n % 0x100 → 0x80 ≤ UInt8.ofNat n := by
    intro n hn
    rw [UInt8.le_iff_toNat_le, UInt8.toNat_ofNat']
    exact hn
  by_cases hascii : c.val.toNat ≤ 0x7f
  · refine .inl ⟨Nat.lt_succ_of_le hascii, ?_⟩
    rw [String.utf8EncodeChar]
    exact if_pos hascii
  · right
    rw [String.utf8EncodeChar]
    simp only [if_neg hascii]
    split
    · exact ⟨_, List.mem_cons_self, hbeyond _ (by omega)⟩
    · split
      · exact ⟨_, List.mem_cons_self, hbeyond _ (by omega)⟩
      · exact ⟨_, List.mem_cons_self, hbeyond _ (by omega)⟩

/-- A text without bytes beyond ASCII consists of characters of ASCII, and these are its bytes. -/
theorem ascii_of_encode {text : String} (hascii : ∀ b ∈ encode text, b < 0x80) :
    (∀ c ∈ text.toList, c.toNat < 0x80) ∧ encode text = Byte.ofChars text.toList := by
  rw [encode] at hascii ⊢
  generalize text.toList = chars at hascii ⊢
  induction chars with
  | nil => exact ⟨fun c hc => (nomatch hc), rfl⟩
  | cons c chars ih =>
    rw [List.flatMap_cons] at hascii ⊢
    obtain ⟨hfirst, hrest⟩ := List.forall_mem_append.1 hascii
    obtain ⟨hchars, hencode⟩ := ih hrest
    rcases encodeChar_cases c with ⟨hc, hchar⟩ | ⟨b, hb, hbeyond⟩
    · refine ⟨List.forall_mem_cons.2 ⟨hc, hchars⟩, ?_⟩
      rw [hchar, hencode]
      rfl
    · exact absurd (hfirst b hb) (UInt8.not_lt.2 hbeyond)

/-- The byte of a character of ASCII has its code. -/
theorem toNat_toUInt8 {c : Char} (hc : c.toNat < 0x80) : c.toUInt8.toNat = c.toNat := by
  show c.toNat % 0x100 = c.toNat
  omega

/-- A byte of ASCII is read as the character that it stands for. -/
theorem lead_toUInt8 {c : Char} (hc : c.toNat < 0x80) :
    lead c.toUInt8 = ([some c], .start) := by
  have hlt : c.toUInt8 < 0x80 := by
    rw [UInt8.lt_iff_toNat_lt, toNat_toUInt8 hc]
    exact hc
  rw [lead, if_pos hlt, toNat_toUInt8 hc, Char.ofNat_toNat]

/-- Bytes of ASCII are read as the characters that they stand for. -/
theorem lossy_ofChars {chars : List Char} (hascii : ∀ c ∈ chars, c.toNat < 0x80) :
    lossy (Byte.ofChars chars) = String.ofList chars := by
  have hdecode : decode (Byte.ofChars chars) = chars.map some := by
    rw [decode]
    induction chars with
    | nil => rfl
    | cons c chars ih =>
      obtain ⟨hc, hchars⟩ := List.forall_mem_cons.1 hascii
      show (lead c.toUInt8).1 ++ decodeFrom (lead c.toUInt8).2 (Byte.ofChars chars) = _
      rw [lead_toUInt8 hc, ih hchars]
      rfl
  rw [lossy, hdecode, List.map_map]
  exact congrArg String.ofList (List.map_id _)

end ByteTokenizer.Text.Utf8
