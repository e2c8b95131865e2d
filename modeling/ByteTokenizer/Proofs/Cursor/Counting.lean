/-
  COUNTING ALONG: lines and columns kept up to date while a cursor reads.

  A location is counted from the content when somebody asks for it.  One could also count along:
  a counter begins at line 1 and column 1, and each advance counts the byte that was current
  before it.  An advance from no current byte counts nothing; that is the first one, which only
  loads a byte, and every one behind the end.

  Both ways agree in every step (`InStep.advance`), since the location moves on in an advance just
  as the counter does (`location_advance`).  Whatever is done to a cursor is some number of
  advances (`apply_eq_advanceBy`), so they agree along every history, and how many advances have
  led to a cursor makes no difference to its counter (`InStep.counter_eq`).
-/
import ByteTokenizer.Proofs.Cursor.Operation
import ByteTokenizer.Proofs.Location.Lines

namespace ByteTokenizer

/-- A line and a column that are counted along. -/
structure Counter where
  line : Nat
  column : Nat
deriving DecidableEq

namespace Counter

/-- Where counting begins. -/
def start : Counter := ⟨1, 1⟩

/-- The counter after an advance, by the byte that was current before it. -/
def count (k : Counter) : Option Byte → Counter
  | none => k
  | some b => if b = Byte.lineFeed then ⟨k.line + 1, 1⟩ else ⟨k.line, k.column + 1⟩

end Counter

/-! ## One advance -/

namespace Cursor

/-- From no current byte an advance stays at its place. -/
theorem location_advance_of_none {c : Cursor} (hnone : c.current = none) :
    c.advance.location = c.location ∧ c.advance.offset = c.offset := by
  cases c with
  | fresh content =>
    rw [advance_fresh, location_between, offset_between]
    exact ⟨rfl, rfl⟩
  | on before byte rest => exact nomatch hnone
  | past content => exact ⟨rfl, rfl⟩

/-- From a byte it goes on to the place behind the byte. -/
theorem location_advance {c : Cursor} {b : Byte} (hbyte : c.current = some b) :
    c.advance.location = c.location.next b ∧ c.advance.offset = c.offset + 1 := by
  obtain ⟨before, byte, rest, rfl⟩ := exists_between_of_current (c := c) (by simp [hbyte])
  obtain rfl : byte = b := by simpa using hbyte
  rw [advance_between_cons, location_between, location_between, offset_between, offset_between,
    Location.after_append_singleton, List.length_append]
  exact ⟨rfl, rfl⟩

end Cursor

/-- How often an operation advances the cursor. -/
def Operation.advances (c : Cursor) : Operation → Nat
  | .advance => 1
  | .takeWhile ask memory => (c.takeWhileAsking ask memory).1.length
  | .lex pattern => (pattern.shape.split c.ahead).used.length

theorem Cursor.apply_eq_advanceBy (c : Cursor) (operation : Operation) :
    c.apply operation = c.advanceBy (operation.advances c) := by
  cases operation with
  | advance => rfl
  | takeWhile ask memory => rfl
  | lex pattern => rfl

/-! ## A cursor with a counter -/

/-- A cursor and the counter that follows it. -/
structure CountingCursor where
  cursor : Cursor
  counter : Counter
deriving DecidableEq

namespace CountingCursor

/-- The fresh cursor of a content, with nothing counted. -/
def fresh (content : List Byte) : CountingCursor := ⟨.fresh content, .start⟩

/-- Advances and counts the byte that was current. -/
def advance (c : CountingCursor) : CountingCursor :=
  ⟨c.cursor.advance, c.counter.count c.cursor.current⟩

/-- Advances `n` times and counts each time. -/
def advanceBy (c : CountingCursor) : Nat → CountingCursor
  | 0 => c
  | n + 1 => c.advance.advanceBy n

/-- Does what the operation does, and counts every advance. -/
def apply (c : CountingCursor) (operation : Operation) : CountingCursor :=
  c.advanceBy (operation.advances c.cursor)

/-- The cursor and its counter after some operations. -/
def run (c : CountingCursor) (operations : List Operation) : CountingCursor :=
  operations.foldl apply c

/-! ## The cursor goes its own way -/

theorem cursor_advanceBy (c : CountingCursor) (n : Nat) :
    (c.advanceBy n).cursor = c.cursor.advanceBy n := by
  induction n generalizing c with
  | zero => rfl
  | succ n ih => exact ih c.advance

theorem cursor_run (c : CountingCursor) (operations : List Operation) :
    (c.run operations).cursor = operations.foldl Cursor.apply c.cursor := by
  induction operations generalizing c with
  | nil => rfl
  | cons operation operations ih =>
    have hstep : (c.apply operation).cursor = c.cursor.apply operation := by
      rw [apply, cursor_advanceBy, ← Cursor.apply_eq_advanceBy]
    show ((c.apply operation).run operations).cursor = _
    rw [ih, hstep]
    rfl

/-! ## The counter says where the cursor is -/

/-- The counter and the offset are the location. -/
def InStep (c : CountingCursor) : Prop :=
  c.cursor.location = ⟨c.counter.line, c.counter.column, c.cursor.offset⟩

theorem inStep_fresh (content : List Byte) : (fresh content).InStep := rfl

namespace InStep

variable {c d : CountingCursor}

theorem advance (h : c.InStep) : c.advance.InStep := by
  show c.cursor.advance.location
    = ⟨(c.counter.count c.cursor.current).line, (c.counter.count c.cursor.current).column,
      c.cursor.advance.offset⟩
  cases hcurrent : c.cursor.current with
  | none =>
    obtain ⟨hlocation, hoffset⟩ := Cursor.location_advance_of_none hcurrent
    rw [hlocation, hoffset]
    exact h
  | some b =>
    obtain ⟨hlocation, hoffset⟩ := Cursor.location_advance hcurrent
    rw [hlocation, hoffset, h, Counter.count]
    by_cases hb : b = Byte.lineFeed
    · rw [hb, Location.next_lineFeed, if_pos rfl]
    · rw [Location.next_of_ne _ hb, if_neg hb]

theorem advanceBy (h : c.InStep) (n : Nat) : (c.advanceBy n).InStep := by
  induction n generalizing c with
  | zero => exact h
  | succ n ih => exact ih h.advance

theorem run (h : c.InStep) (operations : List Operation) : (c.run operations).InStep := by
  induction operations generalizing c with
  | nil => exact h
  | cons operation operations ih => exact ih (h.advanceBy (operation.advances c.cursor))

/-- The counter depends on the cursor only. -/
theorem counter_eq (hc : c.InStep) (hd : d.InStep) (hcursor : c.cursor = d.cursor) : c = d := by
  obtain ⟨cursor, line, column⟩ := c
  obtain ⟨cursor', line', column'⟩ := d
  obtain rfl : cursor = cursor' := hcursor
  have hlocation := hc.symm.trans hd
  rw [Location.mk.injEq] at hlocation
  obtain ⟨rfl, rfl, -⟩ := hlocation
  rfl

end InStep

/-- What is so of a cursor that some operations have led to. -/
structure CountsAlong (content : List Byte) (operations : List Operation) : Prop where
  /-- The counter does not disturb the cursor. -/
  cursor_eq : ((fresh content).run operations).cursor
    = operations.foldl Cursor.apply (.fresh content)
  /-- The location of the cursor, counted from the content, is what has been counted along. -/
  location_eq : (operations.foldl Cursor.apply (.fresh content)).location
    = ⟨((fresh content).run operations).counter.line,
      ((fresh content).run operations).counter.column,
      (operations.foldl Cursor.apply (.fresh content)).offset⟩
  /-- Any number of advances that leads to the cursor counts the same. -/
  advances_eq : ∀ n, (Cursor.fresh content).advanceBy n
      = operations.foldl Cursor.apply (.fresh content) →
    (fresh content).advanceBy n = (fresh content).run operations

/-- **Locations may be counted along.**  Whatever is done to a fresh cursor, the location that is
    counted from its content is the one that a counter gives which follows every advance. -/
theorem locations_are_counted_along (content : List Byte) (operations : List Operation) :
    CountsAlong content operations where
  cursor_eq := cursor_run (fresh content) operations
  location_eq := by
    have hstep := (inStep_fresh content).run operations
    rw [InStep, cursor_run] at hstep
    exact hstep
  advances_eq n hcursor := by
    refine ((inStep_fresh content).advanceBy n).counter_eq ((inStep_fresh content).run _) ?_
    rw [cursor_advanceBy, cursor_run]
    exact hcursor

/-- A letter, two line feeds and a letter. -/
def emptyLine : List Byte := [0x61, 0x0a, 0x0a, 0x62]

/-- The first byte is loaded and its line is taken; then two bytes whatever they are; then the
    cursor is advanced to the end, and once more. -/
def emptyLineOperations : List Operation :=
  [.advance, .lex ⟨.comment, .line⟩, .takeWhile (fun more _ => (more != 0, more - 1)) 2,
    .advance, .advance]

-- the end is a place behind the last letter, however often the cursor is advanced there
theorem locations_are_counted_along_emptyLine :
    (emptyLineOperations.foldl Cursor.apply (.fresh emptyLine)).location = ⟨3, 2, 4⟩
      ∧ (fresh emptyLine).advanceBy 9 = (fresh emptyLine).run emptyLineOperations := by
  have hcounted := locations_are_counted_along emptyLine emptyLineOperations
  have hrun : (fresh emptyLine).run emptyLineOperations
      = ⟨.past #[0x61, 0x0a, 0x0a, 0x62], 3, 2⟩ := by decide
  refine ⟨?_, hcounted.advances_eq 9 (by decide)⟩
  rw [hcounted.location_eq, ← hcounted.cursor_eq, hrun]
  rfl

end CountingCursor

end ByteTokenizer
