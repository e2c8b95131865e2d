/-
  SHAPES: the ready-made rules for the common forms of tokens.

  A shape says how the bytes ahead are divided: which of them are the token's body, and whether
  one closing byte behind the body is used up with it.  Runs take the longest stretch of accepted
  bytes, `single` takes one byte, `line` takes the rest of the line and leaves the line feed.
  `delimited` takes everything up to a closing byte, which it uses up but leaves out of the body;
  an escape byte keeps the byte behind it in the body whatever that is.  Closing is looked at
  first, so an escape byte that also closes only closes.  A body that is never closed runs to the
  end of the input.
-/
import ByteTokenizer.ByteClass.Points
import ByteTokenizer.ByteClass.Range
import ByteTokenizer.Scan

namespace ByteTokenizer

/-- How a shape divides the bytes ahead: the body, and the closing byte used up behind it. -/
structure Split where
  body : List Byte
  closer : Option Byte := none
deriving DecidableEq

namespace Split

/-- The bytes used up, in order. -/
def used (s : Split) : List Byte := s.body ++ s.closer.toList

/-- The same split with one more byte in front of the body. -/
def cons (b : Byte) (s : Split) : Split := { s with body := b :: s.body }

end Split

/-- Divides at the first closing byte that is not `kept`, where an escape byte that is not itself
    kept keeps the byte behind it. -/
def Split.delimited (close : Byte → Bool) (escape : Option Byte) (kept : Bool) :
    List Byte → Split
  | [] => { body := [] }
  | b :: rest =>
    if kept then (Split.delimited close escape false rest).cons b
    else if close b then { body := [], closer := some b }
    else (Split.delimited close escape (escape == some b) rest).cons b

/-- A form of token that many languages share. -/
inductive Shape where
  /-- A run of bytes in a range or among extra points. -/
  | rangeRun (range : Range) (extra : Points)
  /-- A run of bytes among points. -/
  | pointsRun (points : Points)
  /-- One byte. -/
  | single
  /-- Everything up to a closing byte. -/
  | delimited (close : Points) (escape : Option Byte)
  /-- Everything up to the end of the line. -/
  | line
deriving DecidableEq

/-- How the shape divides the bytes ahead. -/
def Shape.split : Shape → List Byte → Split
  | rangeRun range extra, ahead =>
    { body := ahead.takeWhile fun b => range.accepts b || extra.accepts b }
  | pointsRun points, ahead => { body := ahead.takeWhile points.accepts }
  | single, ahead => { body := ahead.take 1 }
  | delimited close escape, ahead => Split.delimited close.accepts escape false ahead
  | line, ahead => { body := ahead.takeWhile (· ≠ Byte.lineFeed) }

/-- A shape together with the kind of the tokens it makes. -/
structure Pattern where
  kind : Kind
  shape : Shape
deriving DecidableEq

/-- The rule that makes tokens of the pattern. -/
def Pattern.rule (p : Pattern) : Rule :=
  Scan.ofAhead fun ahead =>
    let split := p.shape.split ahead
    ({ kind := p.kind, value := split.body }, split.used.length)

/-! ## A split loses nothing -/

/-- What a delimited split uses up are the first bytes ahead. -/
theorem Split.used_delimited (close : Byte → Bool) (escape : Option Byte) (kept : Bool)
    (ahead : List Byte) : (Split.delimited close escape kept ahead).used <+: ahead := by
  induction ahead generalizing kept with
  | nil => exact List.prefix_refl _
  | cons b rest ih =>
    have hstep : ∀ kept', ((Split.delimited close escape kept' rest).cons b).used <+: b :: rest :=
      fun kept' => (List.cons_prefix_cons.2 ⟨rfl, ih kept'⟩ :)
    rw [Split.delimited]
    split
    · exact hstep false
    · split
      · exact ⟨rest, rfl⟩
      · exact hstep _

/-- What a shape uses up are the first bytes ahead. -/
theorem Shape.used_split (shape : Shape) (ahead : List Byte) :
    (shape.split ahead).used <+: ahead := by
  cases shape with
  | rangeRun range extra => simpa [split, Split.used] using List.takeWhile_prefix _
  | pointsRun points => simpa [split, Split.used] using List.takeWhile_prefix _
  | single => simpa [split, Split.used] using List.take_prefix 1 ahead
  | delimited close escape => exact Split.used_delimited _ _ _ _
  | line => simpa [split, Split.used] using List.takeWhile_prefix _

-- a, backslash, quote, b, quote: the escaped quote stays in the body
example : (Shape.delimited (.listed [0x22]) (some 0x5c)).split [0x61, 0x5c, 0x22, 0x62, 0x22]
    = { body := [0x61, 0x5c, 0x22, 0x62], closer := some 0x22 } := by
  decide

end ByteTokenizer
