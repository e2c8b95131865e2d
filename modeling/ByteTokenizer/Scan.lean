/-
  SCANS: computations that move a cursor forward.

  A scan takes a cursor and gives a value and the cursor after it.  Its second field promises
  that the cursor is only ever advanced, so a scan can neither go back nor put another cursor in
  the place of the one it was given.  Scans are combined with `do`; what is combined from forward
  scans is forward.
-/
import ByteTokenizer.Cursor.Reach
import ByteTokenizer.Token

namespace ByteTokenizer

/-- A computation that moves a cursor forward. -/
structure Scan (α : Type) where
  /-- The value, and the cursor afterwards. -/
  run : Cursor → α × Cursor
  /-- The cursor is advanced and nothing else. -/
  forward : ∀ c : Cursor, c.Reaches (run c).2

namespace Scan

/-- The scan that gives a value and leaves the cursor alone. -/
def done {α : Type} (a : α) : Scan α where
  run c := (a, c)
  forward c := .refl c

/-- One scan and then the one that its value asks for. -/
def andThen {α β : Type} (x : Scan α) (f : α → Scan β) : Scan β where
  run c :=
    let (a, d) := x.run c
    (f a).run d
  forward c := (x.forward c).trans ((f (x.run c).1).forward (x.run c).2)

instance : Monad Scan where
  pure := done
  bind := andThen

/-- What can be seen at the cursor. -/
def look {α : Type} (view : Cursor → α) : Scan α where
  run c := (view c, c)
  forward c := .refl c

/-- One advance. -/
def advance : Scan Unit where
  run c := ((), c.advance)
  forward c := .advance c

/-- A value read from the bytes ahead, and an advance over those that it used up. -/
def ofAhead {α : Type} (read : List Byte → α × Nat) : Scan α where
  run c :=
    let (a, used) := read c.ahead
    (a, c.advanceBy used)
  forward c := .advanceBy c _

/-- Takes bytes as long as the test accepts them. -/
def takeWhile (test : Byte → Bool) : Scan (List Byte) where
  run c := c.takeWhile test
  forward c := .advanceBy c _

/-- Scans that do the same to every cursor are the same. -/
theorem ext {α : Type} {x y : Scan α} (h : ∀ c, x.run c = y.run c) : x = y := by
  obtain ⟨run, forward⟩ := x
  obtain ⟨run', forward'⟩ := y
  obtain rfl : run = run' := funext h
  rfl

@[simp] theorem run_pure {α : Type} (a : α) (c : Cursor) :
    (pure a : Scan α).run c = (a, c) := rfl

@[simp] theorem run_bind {α β : Type} (x : Scan α) (f : α → Scan β) (c : Cursor) :
    (x >>= f).run c = (f (x.run c).1).run (x.run c).2 := rfl

@[simp] theorem run_look {α : Type} (view : Cursor → α) (c : Cursor) :
    (look view).run c = (view c, c) := rfl

@[simp] theorem run_advance (c : Cursor) : advance.run c = ((), c.advance) := rfl

@[simp] theorem run_takeWhile (test : Byte → Bool) (c : Cursor) :
    (takeWhile test).run c = c.takeWhile test := rfl

end Scan

/-- A rule makes one token from the bytes at the cursor. -/
abbrev Rule := Scan Token

end ByteTokenizer
