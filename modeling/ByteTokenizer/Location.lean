/-
  LOCATIONS: where a byte stands in its input, for a reader.

  A location names a line, a column counted in bytes, and an offset; lines and columns count
  from 1, offsets from 0.  Nothing is kept up to date while reading: a location is counted from
  the content when somebody asks.  The line is one more than the line feeds before the byte, the
  column one more than the bytes since the last of them, so a line feed belongs to the line that
  it ends.  An offset behind the end means the end.
-/
import ByteTokenizer.Byte
import ByteTokenizer.Text.Record

namespace ByteTokenizer

/-- A place in the input. -/
structure Location where
  /-- The line, from 1. -/
  line : Nat
  /-- The column in bytes, from 1. -/
  column : Nat
  /-- The number of bytes before the place. -/
  offset : Nat
deriving DecidableEq

namespace Location

/-- The first place of every input. -/
def start : Location := ⟨1, 1, 0⟩

instance : Inhabited Location := ⟨start⟩

/-- The place reached after the bytes `before`. -/
def after (before : List Byte) : Location where
  line := before.count Byte.lineFeed + 1
  column := (before.reverse.takeWhile (· ≠ Byte.lineFeed)).length + 1
  offset := before.length

/-- The place of an offset in the content. -/
def ofOffset (content : List Byte) (offset : Nat) : Location :=
  after (content.take offset)

/-- Only what stands before the place counts. -/
theorem ofOffset_append (before rest : List Byte) :
    ofOffset (before ++ rest) before.length = after before := by
  simp [ofOffset]

/-- The location as a reader is told it. -/
def display (l : Location) : String :=
  "line " ++ toString l.line ++ ", column " ++ toString l.column

/-- The location written out. -/
def record (l : Location) : String :=
  Text.record "Position"
    [("line", toString l.line), ("column", toString l.column), ("offset", toString l.offset)]

end Location

-- a, LF, b: the line feed ends line 1, b opens line 2
example : Location.ofOffset [0x61, 0x0a, 0x62] 1 = ⟨1, 2, 1⟩
    ∧ Location.ofOffset [0x61, 0x0a, 0x62] 2 = ⟨2, 1, 2⟩
    ∧ Location.ofOffset [0x61, 0x0a, 0x62] 9 = ⟨2, 2, 3⟩ := by
  decide

end ByteTokenizer
