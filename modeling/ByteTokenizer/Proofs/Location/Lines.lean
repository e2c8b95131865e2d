/-
  LOCATIONS AMONG LINES: what a location says about the lines of its content.

  The lines of a content are what lies between its line feeds, and a line feed belongs to the
  line that it ends.  A location is counted in two ways that know nothing of each other: forward,
  line feed by line feed, for the line, and backward, to the last line feed, for the column.

  The crux is that both go one step further with each byte (`after_append_singleton`).  So the
  bytes before a place are whole lines and the beginning of one more, and the location says how
  many and how much of it (`exists_lines`), whatever lies behind the place.

  From that, offsets and places among the lines (`IsPlace`) correspond to each other one to one,
  and the order of lines and columns is that of the offsets (`locations_are_places`).
-/
import ByteTokenizer.Location
import Mathlib.Data.List.Induction

namespace ByteTokenizer.Location

/-! ## One byte further -/

/-- The location behind the byte that stands at the location. -/
def next (l : Location) (b : Byte) : Location :=
  if b = Byte.lineFeed then ⟨l.line + 1, 1, l.offset + 1⟩
  else ⟨l.line, l.column + 1, l.offset + 1⟩

theorem next_lineFeed (l : Location) : l.next Byte.lineFeed = ⟨l.line + 1, 1, l.offset + 1⟩ :=
  if_pos rfl

theorem next_of_ne (l : Location) {b : Byte} (hne : b ≠ Byte.lineFeed) :
    l.next b = ⟨l.line, l.column + 1, l.offset + 1⟩ :=
  if_neg hne

/-- With one more byte before it the place is the next one. -/
theorem after_append_singleton (before : List Byte) (b : Byte) :
    after (before ++ [b]) = (after before).next b := by
  by_cases hb : b = Byte.lineFeed
  · rw [hb, next_lineFeed]
    simp [after]
  · rw [next_of_ne _ hb]
    simp [after, hb]

/-- Inside the content, the location of the next offset is the next location. -/
theorem ofOffset_succ {content : List Byte} {offset : Nat} {b : Byte}
    (hb : content[offset]? = some b) :
    ofOffset content (offset + 1) = (ofOffset content offset).next b := by
  rw [ofOffset, List.take_add_one, hb, Option.toList_some, after_append_singleton]
  rfl

/-! ## The order of lines and columns -/

/-- The first location is on an earlier line or, on the same line, at an earlier column. -/
def Earlier (l m : Location) : Prop :=
  Prod.Lex (· < ·) (· < ·) (l.line, l.column) (m.line, m.column)

theorem earlier_iff {l m : Location} :
    l.Earlier m ↔ l.line < m.line ∨ l.line = m.line ∧ l.column < m.column :=
  Prod.lex_def

theorem Earlier.trans {l m n : Location} (hlm : l.Earlier m) (hmn : m.Earlier n) :
    l.Earlier n := by
  rw [earlier_iff] at hlm hmn ⊢
  omega

theorem earlier_next (l : Location) (b : Byte) : l.Earlier (l.next b) := by
  rw [earlier_iff]
  by_cases hb : b = Byte.lineFeed
  · rw [hb, next_lineFeed]
    exact .inl (Nat.lt_succ_self _)
  · rw [next_of_ne l hb]
    exact .inr ⟨rfl, Nat.lt_succ_self _⟩

/-- Inside the content, a greater offset has a later location. -/
theorem earlier_ofOffset {content : List Byte} {offset offset' : Nat} (hlt : offset < offset')
    (hle : offset' ≤ content.length) :
    (ofOffset content offset).Earlier (ofOffset content offset') := by
  induction offset' with
  | zero => exact absurd hlt (Nat.not_lt_zero offset)
  | succ last ih =>
    have hstep : (ofOffset content last).Earlier (ofOffset content (last + 1)) := by
      rw [ofOffset_succ (List.getElem?_eq_getElem hle)]
      exact earlier_next _ _
    rcases Nat.lt_or_eq_of_le (Nat.le_of_lt_succ hlt) with hbefore | rfl
    · exact (ih hbefore (Nat.le_of_lt hle)).trans hstep
    · exact hstep

/-! ## Searching backward for the line -/

/-- The index of the last line feed before the offset, looked for from the offset downward. -/
def lastLineFeed? (content : List Byte) : Nat → Option Nat
  | 0 => none
  | offset + 1 =>
    if content[offset]? = some Byte.lineFeed then some offset else lastLineFeed? content offset

/-- The offset at which the line begins that is found by searching backward. -/
def lineStart (content : List Byte) (offset : Nat) : Nat :=
  (lastLineFeed? content offset).elim 0 (· + 1)

theorem lineStart_succ_of_lineFeed {content : List Byte} {offset : Nat}
    (hb : content[offset]? = some Byte.lineFeed) : lineStart content (offset + 1) = offset + 1 := by
  rw [lineStart, lastLineFeed?, if_pos hb]
  rfl

theorem lineStart_succ_of_ne {content : List Byte} {offset : Nat}
    (hb : content[offset]? ≠ some Byte.lineFeed) :
    lineStart content (offset + 1) = lineStart content offset := by
  rw [lineStart, lastLineFeed?, if_neg hb]
  rfl

/-- The line does not begin behind the offset. -/
theorem lineStart_le (content : List Byte) (offset : Nat) : lineStart content offset ≤ offset := by
  induction offset with
  | zero => exact Nat.le_refl 0
  | succ offset ih =>
    by_cases hb : content[offset]? = some Byte.lineFeed
    · exact Nat.le_of_eq (lineStart_succ_of_lineFeed hb)
    · rw [lineStart_succ_of_ne hb]
      exact Nat.le_succ_of_le ih

/-- The column counts from where the line begins. -/
theorem column_ofOffset {content : List Byte} {offset : Nat} (hle : offset ≤ content.length) :
    (ofOffset content offset).column = offset - lineStart content offset + 1 := by
  induction offset with
  | zero => rfl
  | succ offset ih =>
    have hstart := lineStart_le content offset
    have hbyte : content[offset]? = some content[offset] := List.getElem?_eq_getElem hle
    rw [ofOffset_succ hbyte]
    by_cases hb : content[offset] = Byte.lineFeed
    · rw [hb, next_lineFeed, lineStart_succ_of_lineFeed (hb ▸ hbyte), Nat.sub_self]
    · have hne : content[offset]? ≠ some Byte.lineFeed := by simpa [hbyte] using hb
      rw [next_of_ne _ hb, lineStart_succ_of_ne hne, ih (Nat.le_of_lt hle)]
      show offset - lineStart content offset + 1 + 1 = offset + 1 - lineStart content offset + 1
      omega

/-! ## Lines -/

/-- The lines of a content, without the line feeds that end them. -/
def lines (content : List Byte) : List (List Byte) := content.splitOn Byte.lineFeed

/-- The number of bytes of lines that are each ended by a line feed. -/
def total (ended : List (List Byte)) : Nat :=
  (ended.flatMap fun line => line ++ [Byte.lineFeed]).length

theorem lines_lineFeed_cons (rest : List Byte) :
    lines (Byte.lineFeed :: rest) = [] :: lines rest := by
  rw [lines, List.splitOn, List.splitOnP_cons_eq_if_modifyHead, if_pos BEq.rfl]
  rfl

theorem lines_cons_of_ne {b : Byte} (hne : b ≠ Byte.lineFeed) {rest line : List Byte}
    {later : List (List Byte)} (hlines : lines rest = line :: later) :
    lines (b :: rest) = (b :: line) :: later := by
  rw [lines, List.splitOn, List.splitOnP_cons_eq_if_modifyHead, if_neg (by simpa using hne)]
  show (lines rest).modifyHead (List.cons b) = _
  rw [hlines]
  rfl

theorem exists_lines_cons (content : List Byte) :
    ∃ line later, lines content = line :: later :=
  List.exists_cons_of_ne_nil (List.splitOnP_ne_nil (· == Byte.lineFeed) content)

theorem total_append (ended ended' : List (List Byte)) :
    total (ended ++ ended') = total ended + total ended' := by
  rw [total, List.flatMap_append, List.length_append]
  rfl

theorem total_append_singleton (ended : List (List Byte)) (line : List Byte) :
    total (ended ++ [line]) = total ended + (line.length + 1) := by
  rw [total_append]
  simp [total]

/-- The bytes before a place are whole lines and the beginning of one more.  Its location says
    how many lines and how long that beginning is; the rest of the line, and the later lines, are
    those of the bytes behind the place. -/
theorem exists_lines (before rest : List Byte) :
    ∃ earlier begun line later, lines rest = line :: later
      ∧ lines (before ++ rest) = earlier ++ (begun ++ line) :: later
      ∧ (after before).line = earlier.length + 1
      ∧ (after before).column = begun.length + 1
      ∧ before.length = total earlier + begun.length := by
  -- from the back: the last byte before the place is put in front of those behind it
  induction before using List.reverseRecOn generalizing rest with
  | nil =>
    obtain ⟨line, later, hrest⟩ := exists_lines_cons rest
    exact ⟨[], [], line, later, hrest, hrest, rfl, rfl, rfl⟩
  | append_singleton before b ih =>
    obtain ⟨line, later, hrest⟩ := exists_lines_cons rest
    obtain ⟨earlier, begun, line', later', hbehind, hlines, hline, hcolumn, hlength⟩ :=
      ih (b :: rest)
    rw [List.append_assoc, List.singleton_append, hlines, after_append_singleton,
      List.length_append, List.length_singleton, hlength]
    by_cases hb : b = Byte.lineFeed
    · -- the line that was begun is whole now, and the next one has just begun
      rw [hb, lines_lineFeed_cons, hrest] at hbehind
      obtain ⟨rfl, rfl⟩ := List.cons.inj hbehind
      refine ⟨earlier ++ [begun], [], line, later, hrest, ?_, ?_, ?_, ?_⟩
      · rw [List.append_nil, List.nil_append, List.append_assoc, List.singleton_append]
      · rw [hb, next_lineFeed, hline, List.length_append, List.length_singleton]
      · rw [hb, next_lineFeed, List.length_nil]
      · rw [total_append_singleton, List.length_nil]
        omega
    · rw [lines_cons_of_ne hb hrest] at hbehind
      obtain ⟨rfl, rfl⟩ := List.cons.inj hbehind
      refine ⟨earlier, begun ++ [b], line, later, hrest, ?_, ?_, ?_, ?_⟩
      · rw [List.append_assoc, List.singleton_append]
      · rw [next_of_ne _ hb, hline]
      · rw [next_of_ne _ hb, hcolumn, List.length_append, List.length_singleton]
      · rw [List.length_append, List.length_singleton, Nat.add_assoc]

/-- The last line is the only one without a line feed. -/
theorem total_lines (content : List Byte) : total (lines content) = content.length + 1 := by
  obtain ⟨earlier, begun, line, later, hnone, hlines, -, -, hlength⟩ := exists_lines content []
  obtain ⟨rfl, rfl⟩ := List.cons.inj (hnone.symm.trans (List.splitOn_nil Byte.lineFeed))
  rw [List.append_nil, List.append_nil] at hlines
  rw [hlines, total_append_singleton, hlength, Nat.add_assoc]

/-- The lines before one of the lines, and that line, are among those before any later one. -/
theorem total_take_add_le {all : List (List Byte)} {index : Nat} {line : List Byte}
    (hline : all[index]? = some line) {bound : Nat} (hlt : index < bound) :
    total (all.take index) + (line.length + 1) ≤ total (all.take bound) := by
  have htake : all.take (index + 1) <+: all.take bound := List.take_prefix_take_left hlt
  rw [List.take_add_one, hline, Option.toList_some] at htake
  obtain ⟨more, hmore⟩ := htake
  calc total (all.take index) + (line.length + 1)
    _ = total (all.take index ++ [line]) := (total_append_singleton _ line).symm
    _ ≤ total (all.take index ++ [line]) + total more := Nat.le_add_right _ _
    _ = total (all.take bound) := by rw [← total_append, hmore]

/-! ## Places -/

/-- The location is a place among the lines of the content: it is on one of them, at one of its
    bytes or at its end, and its offset counts the earlier lines with their line feeds and the
    bytes before the column. -/
structure IsPlace (content : List Byte) (l : Location) : Prop where
  line_pos : 1 ≤ l.line
  line_le : l.line ≤ (lines content).length
  column_pos : 1 ≤ l.column
  column_le : ∃ line, (lines content)[l.line - 1]? = some line ∧ l.column ≤ line.length + 1
  offset_eq : l.offset = total ((lines content).take (l.line - 1)) + (l.column - 1)

theorem isPlace_after (before rest : List Byte) : IsPlace (before ++ rest) (after before) := by
  obtain ⟨earlier, begun, line, later, -, hlines, hline, hcolumn, hlength⟩ :=
    exists_lines before rest
  refine ⟨?_, ?_, ?_, ⟨begun ++ line, ?_, ?_⟩, ?_⟩
  · omega
  · rw [hlines, hline, List.length_append, List.length_cons]
    omega
  · omega
  · rw [hlines, hline, Nat.add_sub_cancel, List.getElem?_append_right (Nat.le_refl _),
      Nat.sub_self]
    rfl
  · rw [hcolumn, List.length_append]
    omega
  · rw [hlines, hline, hcolumn, Nat.add_sub_cancel, Nat.add_sub_cancel, List.take_left, ← hlength]
    rfl

theorem isPlace_ofOffset (content : List Byte) (offset : Nat) :
    IsPlace content (ofOffset content offset) := by
  have hplace := isPlace_after (content.take offset) (content.drop offset)
  rwa [List.take_append_drop] at hplace

namespace IsPlace

variable {content : List Byte} {l m : Location}

theorem offset_le (h : IsPlace content l) : l.offset ≤ content.length := by
  obtain ⟨line, hline, hcolumn⟩ := h.column_le
  have htotal := total_take_add_le hline
    (Nat.lt_of_lt_of_le (Nat.sub_lt h.line_pos Nat.one_pos) h.line_le)
  rw [List.take_length, total_lines] at htotal
  have hoffset := h.offset_eq
  omega

/-- A place on an earlier line has a smaller offset. -/
theorem offset_lt (hl : IsPlace content l) (hm : IsPlace content m) (hlt : l.line < m.line) :
    l.offset < m.offset := by
  obtain ⟨line, hline, hcolumn⟩ := hl.column_le
  have hpos := hl.line_pos
  have hbefore : l.line - 1 < m.line - 1 := by omega
  have htotal := total_take_add_le hline hbefore
  rw [hl.offset_eq, hm.offset_eq]
  omega

/-- There is one place for an offset. -/
theorem eq_of_offset_eq (hl : IsPlace content l) (hm : IsPlace content m)
    (heq : l.offset = m.offset) : l = m := by
  have hline : l.line = m.line := by
    rcases Nat.lt_trichotomy l.line m.line with hlt | hline | hgt
    · exact absurd heq (Nat.ne_of_lt (hl.offset_lt hm hlt))
    · exact hline
    · exact absurd heq.symm (Nat.ne_of_lt (hm.offset_lt hl hgt))
  have hcolumn : l.column = m.column := by
    have hoffset := hl.offset_eq
    have hoffset' := hm.offset_eq
    have hpos := hl.column_pos
    have hpos' := hm.column_pos
    rw [hline] at hoffset
    omega
  cases l
  cases m
  rw [mk.injEq]
  exact ⟨hline, hcolumn, heq⟩

end IsPlace

/-- An offset counts up to the end of the content. -/
theorem ofOffset_min (content : List Byte) (offset : Nat) :
    ofOffset content (min offset content.length) = ofOffset content offset := by
  rw [ofOffset, ofOffset, ← List.take_take, List.take_length]

/-- What holds of the locations of all offsets of the content. -/
structure InOrder (content : List Byte) : Prop where
  /-- A location stands for its offset, or for the end where the offset lies behind it. -/
  offset_eq : ∀ offset, (ofOffset content offset).offset = min offset content.length
  /-- It is a place among the lines of the content. -/
  isPlace : ∀ offset, IsPlace content (ofOffset content offset)
  /-- The line that is found by searching backward does not begin behind the place, and the
      column counts from there. -/
  column_eq : ∀ offset,
    lineStart content (min offset content.length) ≤ min offset content.length
      ∧ (ofOffset content offset).column
        = min offset content.length - lineStart content (min offset content.length) + 1
  /-- Every place is the location of its offset. -/
  ofOffset_eq : ∀ l, IsPlace content l → ofOffset content l.offset = l
  /-- Of two offsets in the content the greater one has the later place. -/
  earlier : ∀ offset offset', offset < offset' → offset' ≤ content.length →
    (ofOffset content offset).Earlier (ofOffset content offset')
  /-- Only the bytes before the place count. -/
  ofOffset_append : ∀ offset rest,
    ofOffset (content.take (min offset content.length) ++ rest) (min offset content.length)
      = ofOffset content offset

/-- **Locations are places in order.**  The offsets of a content and the places among its lines
    correspond to each other one to one and in order. -/
theorem locations_are_places (content : List Byte) : InOrder content where
  offset_eq _ := List.length_take
  isPlace := isPlace_ofOffset content
  column_eq offset := by
    refine ⟨lineStart_le content _, ?_⟩
    rw [← ofOffset_min]
    exact column_ofOffset (Nat.min_le_right ..)
  ofOffset_eq l hl := by
    refine (isPlace_ofOffset content l.offset).eq_of_offset_eq hl ?_
    exact List.length_take.trans (Nat.min_eq_left hl.offset_le)
  earlier _ _ := earlier_ofOffset
  ofOffset_append offset rest := by
    have hsplit := ofOffset_append (content.take (min offset content.length)) rest
    rw [List.length_take, Nat.min_assoc, Nat.min_self] at hsplit
    rw [hsplit, ← ofOffset_min]
    rfl

/-- Two letters, two line feeds and a letter. -/
def threeLines : List Byte := [0x61, 0x62, 0x0a, 0x0a, 0x63]

-- the empty line is a line of its own, the end is a place on the last line, and there is no other
-- place at offset 3 than the empty line
theorem locations_are_places_threeLines :
    lines threeLines = [[0x61, 0x62], [], [0x63]]
      ∧ ofOffset threeLines 3 = ⟨2, 1, 3⟩
      ∧ ofOffset threeLines 9 = ⟨3, 2, 5⟩
      ∧ (ofOffset threeLines 2).Earlier (ofOffset threeLines 3)
      ∧ ∀ l, IsPlace threeLines l → l.offset = 3 → l = ⟨2, 1, 3⟩ := by
  have hordered := locations_are_places threeLines
  refine ⟨by decide, by decide, by decide, hordered.earlier 2 3 (by decide) (by decide),
    fun l hl hoffset => ?_⟩
  rw [← hordered.ofOffset_eq l hl, hoffset]
  decide

end ByteTokenizer.Location
