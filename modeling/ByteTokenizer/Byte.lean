/-
  BYTES: the letters of every input this library reads.

  A byte is shown to a reader in two ways.  `Byte.hex` gives its two digits; `Byte.escape` gives
  a spelling in visible characters: printing bytes stand for themselves, the usual control
  characters and the three quoting characters get a backslash and a letter, and every other
  byte is spelled by its digits.
-/

namespace ByteTokenizer

/-- One byte of input. -/
abbrev Byte := UInt8

namespace Byte

/-- The line feed, which ends the line it stands on. -/
def lineFeed : Byte := 0x0a

/-- Every byte once, in ascending order. -/
def all : List Byte := (List.range 256).map UInt8.ofNat

theorem mem_all (b : Byte) : b ∈ all :=
  List.mem_map.2 ⟨b.toNat, List.mem_range.2 b.toNat_lt, UInt8.ofNat_toNat⟩

/-- What can be checked byte by byte holds of every byte. -/
theorem forall_of_all {p : Byte → Prop} [DecidablePred p]
    (h : all.all (fun b => decide (p b)) = true) (b : Byte) : p b :=
  of_decide_eq_true (List.all_eq_true.1 h b (mem_all b))

/-- The bytes of a text in ASCII, one byte a character. -/
def ofChars (text : List Char) : List Byte := text.map Char.toUInt8

/-- The two hexadecimal digits of a byte, in lower case. -/
def hex (b : Byte) : String :=
  String.ofList [(b.toNat / 16).digitChar, (b.toNat % 16).digitChar]

/-- A byte in visible characters. -/
def escape (b : Byte) : String :=
  if b = 0x09 then "\\t"
  else if b = 0x0a then "\\n"
  else if b = 0x0d then "\\r"
  else if b = 0x22 then "\\\""
  else if b = 0x27 then "\\'"
  else if b = 0x5c then "\\\\"
  else if 0x20 ≤ b ∧ b ≤ 0x7e then String.ofList [Char.ofNat b.toNat]
  else "\\x" ++ hex b

end Byte

example : Byte.escape 0x61 = "a" ∧ Byte.escape 0x5c = "\\\\" ∧ Byte.escape 0xf0 = "\\xf0" := by
  decide +kernel

end ByteTokenizer
