/-
  LOCATIONS BEHIND OTHER BYTES: where a place lies when something is put in front of its content.

  A location is counted from the bytes before it, so with `front` put before them the lines and
  the offset grow by those of `front`.  The column changes on the first line only: there the last
  line of `front` stands before it.  `Location.behind front` is that translation, and
  `after_append` says that it is right.
-/
import ByteTokenizer.Location
import Mathlib.Data.List.TakeWhile

namespace ByteTokenizer.Location

/-- The location in the content that has `front` before it. -/
def behind (front : List Byte) (l : Location) : Location where
  line := l.line + front.count Byte.lineFeed
  column := if l.line = 1 then l.column + (ofOffset front front.length).column - 1 else l.column
  offset := l.offset + front.length

/-- The bytes since the last line feed, where there is none. -/
theorem takeWhile_reverse_of_not_mem {bytes : List Byte} (hmem : Byte.lineFeed ∉ bytes) :
    bytes.reverse.takeWhile (· ≠ Byte.lineFeed) = bytes.reverse := by
  rw [List.takeWhile_eq_self_iff]
  intro b hb
  exact decide_eq_true fun heq => hmem (heq ▸ List.mem_reverse.1 hb)

/-- Without a line feed the place is on the first line. -/
theorem after_of_not_mem {before : List Byte} (hmem : Byte.lineFeed ∉ before) :
    after before = ⟨1, before.length + 1, before.length⟩ := by
  rw [after, takeWhile_reverse_of_not_mem hmem, List.length_reverse, List.count_eq_zero.2 hmem]

/-- Where there is a line feed, not all bytes lie behind the last one. -/
theorem length_takeWhile_reverse_ne {bytes : List Byte} (hmem : Byte.lineFeed ∈ bytes) :
    (bytes.reverse.takeWhile (· ≠ Byte.lineFeed)).length ≠ bytes.reverse.length := by
  intro hlen
  have hall := (List.takeWhile_prefix (· ≠ Byte.lineFeed)).eq_of_length hlen
  have htest := List.takeWhile_eq_self_iff.1 hall _ (List.mem_reverse.2 hmem)
  exact absurd rfl (of_decide_eq_true htest)

/-- The place after two stretches of bytes is the place after the second, behind the first. -/
theorem after_append (front before : List Byte) :
    after (front ++ before) = (after before).behind front := by
  have hfront : (ofOffset front front.length).column = (after front).column := by
    rw [ofOffset, List.take_length]
  rw [behind, hfront]
  by_cases hmem : Byte.lineFeed ∈ before
  · -- the last line feed is in the second stretch and decides the column
    have hline : (after before).line ≠ 1 := by
      have hpos := List.count_pos_iff.2 hmem
      show before.count Byte.lineFeed + 1 ≠ 1
      omega
    rw [if_neg hline]
    simp only [after, List.reverse_append, List.count_append, List.length_append,
      List.takeWhile_append, if_neg (length_takeWhile_reverse_ne hmem), mk.injEq,
      true_and]
    omega
  · have hline : (after before).line = 1 := by
      show before.count Byte.lineFeed + 1 = 1
      rw [List.count_eq_zero.2 hmem]
    rw [if_pos hline]
    simp only [after, List.reverse_append, List.count_append, List.length_append,
      List.takeWhile_append, takeWhile_reverse_of_not_mem hmem, if_pos, List.length_reverse,
      mk.injEq]
    omega

end ByteTokenizer.Location
