/-
  THE CURSOR: a read head that goes over a fixed content once, from left to right.

  A cursor is in one of three phases.  `fresh` has read nothing and has no current byte; `on`
  stands on a byte; `past` has read everything and has no current byte again.  `advance` goes
  from each phase to the next place and stays in `past` for good.  The content is held as what
  lies before and behind the head, so no index can run out of bounds and a NUL byte is a byte
  like any other; only `char` gives 0 where there is no byte.

  `position` counts the bytes that have been read, the current one included, and `offset` the
  bytes before the current one: the two differ by one on a byte and agree elsewhere.
-/
import ByteTokenizer.Failure

namespace ByteTokenizer

/-- A read head over a content. -/
inductive Cursor where
  /-- Nothing is read yet. -/
  | fresh (content : List Byte)
  /-- The head stands on `byte`. -/
  | on (before : Array Byte) (byte : Byte) (rest : List Byte)
  /-- Everything is read. -/
  | past (content : Array Byte)
deriving DecidableEq

namespace Cursor

/-- A cursor that has read nothing of a content that may be absent. -/
def ofContent? : Option (List Byte) → Except Failure Cursor
  | none => .error .absentContent
  | some content => .ok (fresh content)

/-! ## Looking -/

/-- The whole content. -/
def content : Cursor → List Byte
  | fresh content => content
  | on before byte rest => before.toList ++ byte :: rest
  | past content => content.toList

/-- The byte under the head. -/
def current : Cursor → Option Byte
  | fresh _ => none
  | on _ byte _ => some byte
  | past _ => none

/-- What `char` gives where there is no byte. -/
def endByte : Byte := 0x00

/-- The byte under the head, or `endByte` where there is none. -/
def char (c : Cursor) : Byte := c.current.getD endByte

/-- Whether there is no byte under the head. -/
def atEnd (c : Cursor) : Bool := c.current.isNone

/-- The number of bytes read so far. -/
def position : Cursor → Nat
  | fresh _ => 0
  | on before _ _ => before.size + 1
  | past content => content.size

/-- The number of bytes before the current one. -/
def offset : Cursor → Nat
  | fresh _ => 0
  | on before _ _ => before.size
  | past content => content.size

/-- The line and column of the current byte. -/
def location (c : Cursor) : Location := .ofOffset c.content c.offset

/-- The bytes behind the current one. -/
def remaining : Cursor → List Byte
  | fresh content => content
  | on _ _ rest => rest
  | past _ => []

/-- The byte that the next advance will read. -/
def peek (c : Cursor) : Option Byte := c.remaining.head?

/-- The current byte and those behind it: what a rule can take. -/
def ahead : Cursor → List Byte
  | fresh _ => []
  | on _ byte rest => byte :: rest
  | past _ => []

/-- How often the cursor can still be advanced to a new place. -/
def left : Cursor → Nat
  | fresh content => content.length + 1
  | on _ _ rest => rest.length + 1
  | past _ => 0

/-- The cursor written out. -/
def record (c : Cursor) : String :=
  let numeral (b : Byte) := toString b.toNat
  Text.record "Cursor"
    [("content", Text.bracketed (c.content.map numeral)),
      ("current", Text.optional (c.current.map numeral)), ("position", toString c.position)]

/-! ## Moving -/

/-- Reads the next byte; behind the last one there is no current byte any more. -/
def advance : Cursor → Cursor
  | fresh [] => past #[]
  | fresh (byte :: rest) => on #[] byte rest
  | on before byte [] => past (before.push byte)
  | on before byte (next :: rest) => on (before.push byte) next rest
  | past content => past content

/-- Advances `n` times. -/
def advanceBy (c : Cursor) : Nat → Cursor
  | 0 => c
  | n + 1 => c.advance.advanceBy n

/-- Takes bytes as long as the test accepts them. -/
def takeWhile (test : Byte → Bool) (c : Cursor) : List Byte × Cursor :=
  let taken := c.ahead.takeWhile test
  (taken, c.advanceBy taken.length)

/-- The bytes that a test with a memory accepts, and what it remembers after its last answer.
    The test is asked about one byte after the other, and no more after it has refused one. -/
def accepted {σ : Type} (ask : σ → Byte → Bool × σ) (memory : σ) : List Byte → List Byte × σ
  | [] => ([], memory)
  | b :: rest =>
    match ask memory b with
    | (true, memory) =>
      let (taken, memory) := accepted ask memory rest
      (b :: taken, memory)
    | (false, memory) => ([], memory)

/-- Takes bytes as long as a test with a memory accepts them. -/
def takeWhileAsking {σ : Type} (ask : σ → Byte → Bool × σ) (memory : σ) (c : Cursor) :
    List Byte × σ × Cursor :=
  let (taken, memory) := accepted ask memory c.ahead
  (taken, memory, c.advanceBy taken.length)

/-- A test without a memory takes what `takeWhile` takes. -/
theorem accepted_eq_takeWhile {σ : Type} (test : Byte → Bool) (memory : σ) (bytes : List Byte) :
    accepted (fun m b => (test b, m)) memory bytes = (bytes.takeWhile test, memory) := by
  induction bytes with
  | nil => rfl
  | cons b rest ih => cases h : test b <;> simp [accepted, h, ih]

end Cursor

-- two bytes are read by two advances; the third finds nothing more
example : ((Cursor.fresh [0x61, 0x00]).advanceBy 2).current = some 0x00
    ∧ ((Cursor.fresh [0x61, 0x00]).advanceBy 3).current = none
    ∧ ((Cursor.fresh [0x61, 0x00]).advanceBy 3).position = 2 := by
  decide

end ByteTokenizer
