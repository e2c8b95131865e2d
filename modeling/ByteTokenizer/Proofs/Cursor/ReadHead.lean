/-
  READ HEADS: the cursor as a record of three fields.

  A read head keeps the whole content, the byte it stands on and the number of bytes it has read.
  It reads by index, has its offset by a subtraction, cuts what is still to be read out of the
  content, and takes bytes one at a time in loops.  Its fields may hold anything: the subtraction
  may go below zero and the cut begin behind the end, and then there is no value (`offset?`,
  `remaining?`).

  `Cursor.head` is the read head of a cursor.  A cursor's read head always has those two values,
  and they are the cursor's (`offset?_head`, `remaining?_head`).  Whatever the read head does by
  index and by loop, the cursor does by its parts: `head_advance` for one step,
  `takeWhileAsking_head` and `take_head` for the loops.
-/
import ByteTokenizer.Proofs.Cursor.Between
import ByteTokenizer.Rule.Shape

namespace ByteTokenizer

/-- A content, the byte under the head, and the number of bytes read so far. -/
structure ReadHead where
  content : List Byte
  current : Option Byte
  position : Nat

namespace ReadHead

/-- The read head that has read nothing. -/
def new (content : List Byte) : ReadHead := ⟨content, none, 0⟩

/-- Reads the byte at the position; where there is none, the current byte is lost. -/
def advance (h : ReadHead) : ReadHead :=
  match h.content[h.position]? with
  | some byte => { h with current := some byte, position := h.position + 1 }
  | none => { h with current := none }

/-- The offset of the current byte, unless that is below zero. -/
def offset? (h : ReadHead) : Option Nat :=
  match h.current with
  | some _ => if 1 ≤ h.position then some (h.position - 1) else none
  | none => some h.position

/-- The bytes from the position on, unless that is behind the end. -/
def remaining? (h : ReadHead) : Option (List Byte) :=
  if h.position ≤ h.content.length then some (h.content.drop h.position) else none

/-- The byte that the next advance will read. -/
def peek (h : ReadHead) : Option Byte := h.content[h.position]?

/-! ## Loops -/

/-- How often a loop can still advance over a current byte. -/
def left (h : ReadHead) : Nat :=
  match h.current with
  | some _ => h.content.length - h.position + 1
  | none => 0

theorem left_advance_lt {h : ReadHead} {byte : Byte} (hcurrent : h.current = some byte) :
    h.advance.left < h.left := by
  unfold advance
  split
  · next next hnext =>
    obtain ⟨hlt, -⟩ := List.getElem?_eq_some_iff.1 hnext
    simp only [left, hcurrent]
    omega
  · simp [left, hcurrent]

/-- Takes bytes as long as a test with a memory accepts them. -/
def takeWhileAsking {σ : Type} (ask : σ → Byte → Bool × σ) (memory : σ) (h : ReadHead) :
    List Byte × σ × ReadHead :=
  match _ : h.current with
  | none => ([], memory, h)
  | some byte =>
    match ask memory byte with
    | (true, memory) =>
      let (taken, memory, next) := takeWhileAsking ask memory h.advance
      (byte :: taken, memory, next)
    | (false, memory) => ([], memory, h)
termination_by h.left
decreasing_by exact left_advance_lt ‹_›

/-- Takes bytes as long as the test accepts them. -/
def takeWhile (test : Byte → Bool) (h : ReadHead) : List Byte × ReadHead :=
  let (taken, _, next) := h.takeWhileAsking (fun memory byte => (test byte, memory)) ()
  (taken, next)

/-- Takes the current byte, if there is one. -/
def takeOne (h : ReadHead) : List Byte × ReadHead :=
  match h.current with
  | some byte => ([byte], h.advance)
  | none => ([], h)

/-- Takes bytes up to a closing one, which is stepped over.  Behind an escape byte the next one is
    taken whatever it is, if there is a next one. -/
def takeDelimited (close : Byte → Bool) (escape : Option Byte) (h : ReadHead) :
    List Byte × ReadHead :=
  match _ : h.current with
  | none => ([], h)
  | some byte =>
    if close byte then ([], h.advance)
    else if escape = some byte then
      match _ : h.advance.current with
      | some escaped =>
        let (taken, next) := takeDelimited close escape h.advance.advance
        (byte :: escaped :: taken, next)
      | none => ([byte], h.advance)
    else
      let (taken, next) := takeDelimited close escape h.advance
      (byte :: taken, next)
termination_by h.left
decreasing_by
  · exact Nat.lt_trans (left_advance_lt ‹h.advance.current = _›) (left_advance_lt ‹_›)
  · exact left_advance_lt ‹_›

theorem takeWhileAsking_of_none {σ : Type} {ask : σ → Byte → Bool × σ} {memory : σ}
    {h : ReadHead} (hcurrent : h.current = none) :
    h.takeWhileAsking ask memory = ([], memory, h) := by
  rw [takeWhileAsking]
  split
  · rfl
  · next hbyte => exact nomatch hcurrent.symm.trans hbyte

theorem takeWhileAsking_of_some {σ : Type} {ask : σ → Byte → Bool × σ} {memory : σ}
    {h : ReadHead} {byte : Byte} (hcurrent : h.current = some byte) :
    h.takeWhileAsking ask memory
      = if (ask memory byte).1 then
          let rest := h.advance.takeWhileAsking ask (ask memory byte).2
          (byte :: rest.1, rest.2)
        else ([], (ask memory byte).2, h) := by
  rw [takeWhileAsking]
  split
  · next hnone => exact nomatch hcurrent.symm.trans hnone
  · next byte' hbyte =>
    obtain rfl : byte = byte' := Option.some.inj (hcurrent.symm.trans hbyte)
    split
    · next hask => rw [hask]; rfl
    · next hask => rw [hask]; rfl

theorem takeDelimited_of_none {close : Byte → Bool} {escape : Option Byte} {h : ReadHead}
    (hcurrent : h.current = none) : h.takeDelimited close escape = ([], h) := by
  rw [takeDelimited]
  split
  · rfl
  · next hbyte => exact nomatch hcurrent.symm.trans hbyte

theorem takeDelimited_of_some {close : Byte → Bool} {escape : Option Byte} {h : ReadHead}
    {byte : Byte} (hcurrent : h.current = some byte) :
    h.takeDelimited close escape
      = if close byte then ([], h.advance)
        else if escape = some byte then
          match h.advance.current with
          | some escaped =>
            let rest := h.advance.advance.takeDelimited close escape
            (byte :: escaped :: rest.1, rest.2)
          | none => ([byte], h.advance)
        else
          let rest := h.advance.takeDelimited close escape
          (byte :: rest.1, rest.2) := by
  rw [takeDelimited]
  split
  · next hnone => exact nomatch hcurrent.symm.trans hnone
  · next byte' hbyte =>
    obtain rfl : byte = byte' := Option.some.inj (hcurrent.symm.trans hbyte)
    split
    · rfl
    · split
      · split
        · next hescaped => rw [hescaped]
        · next hescaped => rw [hescaped]
      · rfl

/-- Takes the body of a shape. -/
def take (h : ReadHead) : Shape → List Byte × ReadHead
  | .rangeRun range extra => h.takeWhile fun b => range.accepts b || extra.accepts b
  | .pointsRun points => h.takeWhile points.accepts
  | .single => h.takeOne
  | .delimited close escape => h.takeDelimited close.accepts escape
  | .line => h.takeWhile (· ≠ Byte.lineFeed)

end ReadHead

namespace Cursor

/-- The read head of the cursor. -/
def head (c : Cursor) : ReadHead := ⟨c.content, c.current, c.position⟩

/-! ## One step -/

/-- The position is where the bytes that are still to be read begin. -/
theorem remaining_eq_drop (c : Cursor) : c.remaining = c.content.drop c.position := by
  cases c with
  | fresh content => rfl
  | on before byte rest =>
    have hsplit : before.toList ++ byte :: rest = (before.toList ++ [byte]) ++ rest := by simp
    have hlength : before.size + 1 = (before.toList ++ [byte]).length := by simp
    rw [content, position, hsplit, hlength, List.drop_left]
    rfl
  | past content => simp [remaining, Cursor.content, position]

theorem position_le (c : Cursor) : c.position ≤ c.content.length := by
  cases c with
  | fresh content => exact Nat.zero_le _
  | on before byte rest => simp [content, position]
  | past content => simp [Cursor.content, position]

theorem remaining?_head (c : Cursor) : c.head.remaining? = some c.remaining := by
  rw [remaining_eq_drop]
  exact if_pos c.position_le

theorem offset?_head (c : Cursor) : c.head.offset? = some c.offset := by
  cases c with
  | fresh content => rfl
  | on before byte rest => rfl
  | past content => rfl

theorem peek_head (c : Cursor) : c.head.peek = c.peek := by
  rw [peek, remaining_eq_drop, List.head?_drop]
  rfl

/-- Reading by index is what a cursor does by its parts. -/
theorem head_advance (c : Cursor) : c.advance.head = c.head.advance := by
  have hpeek : c.head.content[c.head.position]? = c.peek := c.peek_head
  rw [ReadHead.advance, hpeek]
  match c with
  | fresh [] => rfl
  | fresh (_ :: _) => rfl
  | on _ _ [] => simp [advance, head, peek, content, remaining, current, position]
  | on _ _ (_ :: _) => simp [advance, head, peek, content, remaining, current, position]
  | past _ => rfl

/-! ## Loops -/

/-- An advance leaves one byte less ahead. -/
theorem ahead_advance {c : Cursor} {byte : Byte} {rest : List Byte} (h : c.ahead = byte :: rest) :
    c.advance.ahead = rest := by
  match c with
  | fresh _ => exact nomatch h
  | on _ _ [] => exact (List.cons.inj h).2
  | on _ _ (_ :: _) => exact (List.cons.inj h).2
  | past _ => exact nomatch h

/-- Asking byte by byte takes what the cursor takes. -/
theorem takeWhileAsking_head {σ : Type} (ask : σ → Byte → Bool × σ) (memory : σ) (c : Cursor) :
    c.head.takeWhileAsking ask memory
      = ((c.takeWhileAsking ask memory).1, (c.takeWhileAsking ask memory).2.1,
        (c.takeWhileAsking ask memory).2.2.head) := by
  unfold takeWhileAsking
  generalize hahead : c.ahead = ahead
  induction ahead generalizing c memory with
  | nil =>
    have hcurrent : c.head.current = none := c.current_eq_head?.trans (by rw [hahead]; rfl)
    exact ReadHead.takeWhileAsking_of_none hcurrent
  | cons byte rest ih =>
    have hcurrent : c.head.current = some byte := c.current_eq_head?.trans (by rw [hahead]; rfl)
    rw [ReadHead.takeWhileAsking_of_some hcurrent, ← head_advance,
      ih (ask memory byte).2 c.advance (ahead_advance hahead), accepted]
    rcases hask : ask memory byte with ⟨_ | _, memory'⟩
    · rfl
    · rfl

/-- A run is a division without a closing byte. -/
theorem takeWhile_head (test : Byte → Bool) (c : Cursor) :
    c.head.takeWhile test
      = (c.ahead.takeWhile test,
        (c.advanceBy (Split.used { body := c.ahead.takeWhile test }).length).head) := by
  rw [ReadHead.takeWhile, takeWhileAsking_head, takeWhileAsking, accepted_eq_takeWhile, Split.used,
    Option.toList_none, List.append_nil]

/-- Taking bytes up to a closing one divides what is ahead. -/
theorem takeDelimited_head (close : Byte → Bool) (escape : Option Byte) (c : Cursor) :
    c.head.takeDelimited close escape
      = ((Split.delimited close escape false c.ahead).body,
        (c.advanceBy (Split.delimited close escape false c.ahead).used.length).head) := by
  -- on the number of bytes ahead, because the loop may take two of them in one turn
  induction hlength : c.ahead.length using Nat.strongRecOn generalizing c with
  | ind length ih =>
    cases hahead : c.ahead with
    | nil => exact ReadHead.takeDelimited_of_none (c.current_eq_head?.trans (by rw [hahead]; rfl))
    | cons byte rest =>
      have hcurrent : c.head.current = some byte :=
        c.current_eq_head?.trans (by rw [hahead]; rfl)
      have hrest : c.advance.ahead = rest := ahead_advance hahead
      rw [hahead, List.length_cons] at hlength
      rw [ReadHead.takeDelimited_of_some hcurrent, ← head_advance, ← head_advance,
        Split.delimited, if_neg Bool.false_ne_true]
      by_cases hclose : close byte = true
      · rw [if_pos hclose, if_pos hclose]
        rfl
      · rw [if_neg hclose, if_neg hclose]
        by_cases hescape : escape = some byte
        · -- the loop takes the escaped byte in the same turn, the division in the next one
          have hkept : (escape == some byte) = true := beq_iff_eq.2 hescape
          have hnext : c.advance.head.current = rest.head? :=
            hrest ▸ current_eq_head? c.advance
          rw [if_pos hescape, hkept, hnext]
          cases rest with
          | nil => rfl
          | cons escaped rest =>
            have hbehind : c.advance.advance.ahead = rest := ahead_advance hrest
            have hloop := ih rest.length (by rw [← hlength, List.length_cons]; omega)
              c.advance.advance (by rw [hbehind])
            rw [hbehind] at hloop
            show (byte :: escaped :: (c.advance.advance.head.takeDelimited close escape).1,
              (c.advance.advance.head.takeDelimited close escape).2) = _
            rw [hloop, Split.delimited, if_pos rfl]
            rfl
        · have hkept : (escape == some byte) = false := beq_eq_false_iff_ne.2 hescape
          have hloop := ih rest.length (by omega) c.advance (by rw [hrest])
          rw [hrest] at hloop
          rw [if_neg hescape, hkept, hloop]
          rfl

/-- What a read head takes by a shape, and where it is then, is what the rule of a pattern of that
    shape gives. -/
theorem take_head (p : Pattern) (c : Cursor) :
    c.head.take p.shape = ((p.rule.run c).1.value, (p.rule.run c).2.head) := by
  show c.head.take p.shape
    = ((p.shape.split c.ahead).body, (c.advanceBy (p.shape.split c.ahead).used.length).head)
  cases p.shape with
  | rangeRun range extra => exact takeWhile_head _ c
  | pointsRun points => exact takeWhile_head _ c
  | single =>
    rw [ReadHead.take, ReadHead.takeOne, ← head_advance]
    show (match c.current with | some byte => ([byte], c.advance.head) | none => ([], c.head)) = _
    rw [current_eq_head?]
    cases c.ahead <;> rfl
  | delimited close escape => exact takeDelimited_head close.accepts escape c
  | line => exact takeWhile_head _ c

end Cursor

end ByteTokenizer
