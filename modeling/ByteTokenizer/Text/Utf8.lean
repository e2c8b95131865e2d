/-
  UTF-8: bytes read as text, strictly or with replacements.

  The reader is a machine with one step a byte.  Between characters it stands at `start`; inside
  one it remembers how many bytes are missing, in which interval the next of them must lie, and
  the code collected so far.  The interval rules out overlong forms, surrogates and codes above
  U+10FFFF at the first byte that shows them.  A byte that cannot continue the character at hand
  ends it as malformed and is then read as the first byte of the next one, so `decode` yields one
  `none` for each longest malformed part, and an ASCII byte always comes out as itself.
-/
import ByteTokenizer.Byte

namespace ByteTokenizer.Text.Utf8

/-- What the reader knows between two bytes. -/
inductive State where
  /-- It stands between characters. -/
  | start
  /-- Inside a character: `more + 1` bytes are missing, and the next lies in `lo .. hi`. -/
  | inside (more : Nat) (lo hi : Byte) (code : Nat)
deriving DecidableEq

/-- Reads the first byte of a character. -/
def lead (b : Byte) : List (Option Char) × State :=
  if b < 0x80 then ([some (Char.ofNat b.toNat)], .start)
  else if b < 0xc2 then ([none], .start)
  else if b < 0xe0 then ([], .inside 0 0x80 0xbf (b.toNat % 32))
  else if b = 0xe0 then ([], .inside 1 0xa0 0xbf 0)
  else if b = 0xed then ([], .inside 1 0x80 0x9f 13)
  else if b < 0xf0 then ([], .inside 1 0x80 0xbf (b.toNat % 16))
  else if b = 0xf0 then ([], .inside 2 0x90 0xbf 0)
  else if b < 0xf4 then ([], .inside 2 0x80 0xbf (b.toNat % 8))
  else if b = 0xf4 then ([], .inside 2 0x80 0x8f 4)
  else ([none], .start)

/-- Reads one byte: what it settles, and the state after it. -/
def step : State → Byte → List (Option Char) × State
  | .start, b => lead b
  | .inside more lo hi code, b =>
    if lo ≤ b ∧ b ≤ hi then
      match more with
      | 0 => ([some (Char.ofNat (code * 64 + b.toNat % 64))], .start)
      | more + 1 => ([], .inside more 0x80 0xbf (code * 64 + b.toNat % 64))
    else
      (none :: (lead b).1, (lead b).2)

/-- The end of the input cuts an unfinished character short. -/
def finish : State → List (Option Char)
  | .start => []
  | .inside _ _ _ _ => [none]

/-- Reads the bytes from a state on. -/
def decodeFrom : State → List Byte → List (Option Char)
  | state, [] => finish state
  | state, b :: rest => (step state b).1 ++ decodeFrom (step state b).2 rest

/-- The characters of the bytes, with `none` for each malformed part. -/
def decode (bytes : List Byte) : List (Option Char) := decodeFrom .start bytes

/-- The character that stands for a malformed part. -/
def replacement : Char := '\uFFFD'

/-- The text of the bytes, with a replacement character for each malformed part. -/
def lossy (bytes : List Byte) : String :=
  String.ofList ((decode bytes).map (·.getD replacement))

/-- The text of the bytes, if no part of them is malformed. -/
def strict? (bytes : List Byte) : Option String :=
  if (decode bytes).all Option.isSome then some (lossy bytes) else none

/-- The bytes of a text. -/
def encode (text : String) : List Byte := text.toList.flatMap String.utf8EncodeChar

-- an accented letter, then two bytes of a three-byte character that the end cuts short
example : decode [0xc3, 0xa9, 0xe2, 0x82] = [some 'é', none] := by decide

-- a surrogate is malformed at its second byte, so every byte counts on its own
example : decode [0xed, 0xa0, 0x80, 0x61] = [none, none, none, some 'a'] := by decide

end ByteTokenizer.Text.Utf8
