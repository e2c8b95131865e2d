/-
  FAILURES: the three ways in which reading an input can go wrong.

  There may be no input at all; a byte may belong to no class of the alphabet; or the rules of a
  category may leave the cursor where it was, so that reading on would never end.  The last two
  say where they happened.
-/
import ByteTokenizer.Location
import ByteTokenizer.Token

namespace ByteTokenizer

/-- Why an input could not be turned into tokens. -/
inductive Failure where
  /-- There is no content, not even an empty one. -/
  | absentContent
  /-- The byte belongs to no class. -/
  | unexpectedByte (byte : Byte) (location : Location)
  /-- The rules of the category did not move the cursor. -/
  | stalled (category : Category) (location : Location)
deriving DecidableEq

namespace Failure

/-- The place that the failure names. -/
def location? : Failure → Option Location
  | absentContent => none
  | unexpectedByte _ location => some location
  | stalled _ location => some location

/-- The failure as a reader is told it. -/
def message : Failure → String
  | absentContent => "the cursor's content cannot be absent"
  | unexpectedByte byte location =>
    "unexpected byte '" ++ Byte.escape byte ++ "' (0x" ++ Byte.hex byte ++ ") at "
      ++ location.display
  | stalled category location =>
    category.name ++ " callbacks made no progress at " ++ location.display

/-- The failure written out. -/
def record : Failure → String
  | absentContent => "EmptyContent"
  | unexpectedByte byte location =>
    Text.record "UnexpectedByte"
      [("byte", toString byte.toNat), ("position", location.record)]
  | stalled category location =>
    Text.record "Stalled"
      [("category", category.record), ("position", location.record)]

end Failure

example : (Failure.unexpectedByte 0x0a .start).message
    = "unexpected byte '\\n' (0x0a) at line 1, column 1" := by
  decide +kernel

end ByteTokenizer
