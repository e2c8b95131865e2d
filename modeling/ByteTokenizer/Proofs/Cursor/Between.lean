/-
  CURSORS BETWEEN TWO PARTS: one form for every cursor that has been advanced.

  Once a cursor has been advanced, all there is to know of it is how it divides its content: the
  bytes before the head, and the bytes from the head on.  `between before ahead` is that cursor;
  it stands on the first byte of `ahead`, or at the end if there is none.

  Advancing moves bytes from the second part to the first and does nothing else, so whatever is
  reached from `between before ahead` is `between (before ++ used) rest` for a division
  `ahead = used ++ rest` (`Reaches.exists_used`).  Offsets, positions and locations are then
  lengths and counts of the first part.  In this form a cursor that is reached from a byte and
  has its old position and a current byte is the old cursor: see `Reaches.stuck_iff`.
-/
import ByteTokenizer.Cursor.Reach

namespace ByteTokenizer.Cursor

/-- The advanced cursor with the bytes `before` behind it and the bytes `ahead` still to go. -/
def between (before : List Byte) : List Byte → Cursor
  | [] => past before.toArray
  | byte :: rest => on before.toArray byte rest

/-! ## What is seen of it -/

/-- The first advance puts the cursor in front of the whole content. -/
@[simp] theorem advance_fresh (content : List Byte) :
    (fresh content).advance = between [] content := by
  cases content <;> rfl

@[simp] theorem content_between (before ahead : List Byte) :
    (between before ahead).content = before ++ ahead := by
  cases ahead <;> simp [between, content]

@[simp] theorem ahead_between (before rest : List Byte) :
    (between before rest).ahead = rest := by
  cases rest <;> rfl

@[simp] theorem current_between (before ahead : List Byte) :
    (between before ahead).current = ahead.head? := by
  cases ahead <;> rfl

@[simp] theorem atEnd_between (before ahead : List Byte) :
    (between before ahead).atEnd = ahead.isEmpty := by
  cases ahead <;> rfl

@[simp] theorem offset_between (before ahead : List Byte) :
    (between before ahead).offset = before.length := by
  cases ahead <;> simp [between, offset]

@[simp] theorem location_between (before ahead : List Byte) :
    (between before ahead).location = .after before := by
  rw [location, content_between, offset_between, Location.ofOffset_append]

/-- On a byte the position is one ahead of the offset. -/
theorem position_between_cons (before : List Byte) (byte : Byte) (rest : List Byte) :
    (between before (byte :: rest)).position = before.length + 1 := by
  simp [between, position]

/-- At the end position and offset agree. -/
theorem position_between_nil (before : List Byte) :
    (between before []).position = before.length := by
  simp [between, position]

/-- The division is all there is: the cursor determines its two parts. -/
theorem between_inj {before ahead before' ahead' : List Byte} :
    between before ahead = between before' ahead' ↔ before = before' ∧ ahead = ahead' := by
  constructor
  · intro h
    have hahead : ahead = ahead' := by simpa using congrArg Cursor.ahead h
    have hcontent : before ++ ahead = before' ++ ahead' := by
      simpa using congrArg Cursor.content h
    rw [← hahead] at hcontent
    exact ⟨List.append_cancel_right hcontent, hahead⟩
  · rintro ⟨rfl, rfl⟩
    rfl

/-- A cursor that has taken a byte is another one. -/
theorem between_append_cons_ne (before : List Byte) (byte : Byte) (more left ahead : List Byte) :
    between (before ++ byte :: more) left ≠ between before ahead := by
  intro heq
  have hlen := congrArg List.length (between_inj.1 heq).1
  rw [List.length_append, List.length_cons] at hlen
  omega

/-- A cursor on a byte has the form, with that byte in front of its second part. -/
theorem exists_between_of_current {c : Cursor} (hbyte : c.current ≠ none) :
    ∃ before byte rest, c = between before (byte :: rest) := by
  cases c with
  | fresh content => exact absurd rfl hbyte
  | on before byte rest => exact ⟨before.toList, byte, rest, rfl⟩
  | past content => exact absurd rfl hbyte

/-- The current byte is the first one ahead. -/
theorem current_eq_head? (c : Cursor) : c.current = c.ahead.head? := by
  cases c <;> rfl

/-- Without a current byte nothing is ahead. -/
theorem ahead_eq_nil {c : Cursor} (hcurrent : c.current = none) : c.ahead = [] :=
  List.head?_eq_none_iff.1 (c.current_eq_head?.symm.trans hcurrent)

/-! ## Advancing it -/

theorem advance_between_nil (before : List Byte) :
    (between before []).advance = between before [] := rfl

theorem advance_between_cons (before : List Byte) (byte : Byte) (rest : List Byte) :
    (between before (byte :: rest)).advance = between (before ++ [byte]) rest := by
  cases rest <;> simp [between, advance]

theorem advanceBy_between_nil (before : List Byte) (n : Nat) :
    (between before []).advanceBy n = between before [] := by
  induction n with
  | zero => rfl
  | succ n ih => rw [advanceBy, advance_between_nil, ih]

/-- As many advances as there are bytes in `used` take the head over them. -/
theorem advanceBy_between (before used rest : List Byte) :
    (between before (used ++ rest)).advanceBy used.length = between (before ++ used) rest := by
  induction used generalizing before with
  | nil => rw [List.append_nil]; rfl
  | cons byte used ih =>
    rw [List.cons_append, List.length_cons, advanceBy, advance_between_cons, ih,
      List.append_assoc]
    rfl

/-- From any cursor, as many advances as there are bytes in `used` leave the rest ahead. -/
theorem advanceBy_of_ahead {c : Cursor} {used rest : List Byte} (hahead : c.ahead = used ++ rest) :
    (c.advanceBy used.length).ahead = rest
      ∧ (c.advanceBy used.length).offset = c.offset + used.length := by
  by_cases hbyte : c.current = none
  · rw [ahead_eq_nil hbyte] at hahead
    obtain ⟨rfl, rfl⟩ := List.append_eq_nil_iff.1 hahead.symm
    exact ⟨ahead_eq_nil hbyte, rfl⟩
  · obtain ⟨before, byte, more, rfl⟩ := exists_between_of_current hbyte
    rw [ahead_between] at hahead
    rw [hahead, advanceBy_between, ahead_between, offset_between, offset_between,
      List.length_append]
    exact ⟨rfl, rfl⟩

/-- Whatever is reached has taken some of the bytes ahead over to the bytes before. -/
theorem Reaches.exists_used {before ahead : List Byte} {d : Cursor}
    (h : (between before ahead).Reaches d) :
    ∃ used rest, ahead = used ++ rest ∧ d = between (before ++ used) rest := by
  obtain ⟨n, rfl⟩ := h
  rcases Nat.lt_or_ge n ahead.length with hlt | hge
  · refine ⟨ahead.take n, ahead.drop n, (List.take_append_drop n ahead).symm, ?_⟩
    have hadv := advanceBy_between before (ahead.take n) (ahead.drop n)
    rw [List.take_append_drop, List.length_take, Nat.min_eq_left (by omega)] at hadv
    exact hadv
  · -- more advances than bytes: the last ones stay at the end
    refine ⟨ahead, [], (List.append_nil ahead).symm, ?_⟩
    obtain ⟨extra, rfl⟩ := Nat.exists_eq_add_of_le hge
    have hadv := advanceBy_between before ahead []
    rw [List.append_nil] at hadv
    rw [advanceBy_add, hadv, advanceBy_between_nil]

/-- The cursor that stands at an offset of the content. -/
def onOffset (content : List Byte) (offset : Nat) : Cursor :=
  (fresh content).advanceBy (offset + 1)

/-- The bytes before it give the offset at which a cursor stands. -/
theorem onOffset_append (before ahead : List Byte) :
    onOffset (before ++ ahead) before.length = between before ahead := by
  rw [onOffset, advanceBy, advance_fresh, advanceBy_between, List.nil_append]

/-- Inside the content, the byte at the offset is the one under the head. -/
theorem current_onOffset {content : List Byte} {offset : Nat} (hlt : offset < content.length) :
    (onOffset content offset).current = content[offset]? := by
  have hsplit := onOffset_append (content.take offset) (content.drop offset)
  rw [List.take_append_drop, List.length_take, Nat.min_eq_left (Nat.le_of_lt hlt)] at hsplit
  rw [hsplit, current_between, List.head?_drop]

/-! ## Standing still -/

/-- Two cursors that are reached from each other, one of them on a byte, are the same. -/
theorem Reaches.antisymm {c d : Cursor} (hcd : c.Reaches d) (hdc : d.Reaches c)
    (hbyte : c.current ≠ none) : d = c := by
  obtain ⟨before, byte, rest, rfl⟩ := exists_between_of_current hbyte
  obtain ⟨used, left, hahead, rfl⟩ := hcd.exists_used
  obtain ⟨used', left', -, heq⟩ := hdc.exists_used
  have hlen := congrArg List.length (between_inj.1 heq).1
  simp only [List.length_append] at hlen
  obtain rfl : used = [] := List.eq_nil_of_length_eq_zero (by omega)
  rw [List.append_nil, hahead, List.nil_append]

/-- From a byte, a cursor with the old offset is the old cursor. -/
theorem Reaches.eq_iff_offset {c d : Cursor} (h : c.Reaches d) (hbyte : c.current ≠ none) :
    d = c ↔ d.offset = c.offset := by
  obtain ⟨before, byte, rest, rfl⟩ := exists_between_of_current hbyte
  obtain ⟨used, left, hahead, rfl⟩ := h.exists_used
  constructor
  · intro heq
    rw [heq]
  · intro hoff
    have hused : used = [] := by
      have hlen : (before ++ used).length = before.length := by simpa using hoff
      rw [List.length_append] at hlen
      exact List.eq_nil_of_length_eq_zero (by omega)
    rw [hused, List.nil_append] at hahead
    rw [hused, List.append_nil, hahead]

/-- From a byte, a cursor that has the old position and still a current byte is the old cursor:
    the position alone would miss the advance that takes the last byte. -/
theorem Reaches.stuck_iff {c d : Cursor} (h : c.Reaches d) (hbyte : c.current ≠ none) :
    (d.position = c.position ∧ d.atEnd = false) ↔ d = c := by
  constructor
  · rintro ⟨hpos, hend⟩
    rw [h.eq_iff_offset hbyte]
    obtain ⟨before, byte, rest, rfl⟩ := exists_between_of_current hbyte
    obtain ⟨used, left, -, rfl⟩ := h.exists_used
    cases left with
    | nil => exact absurd hend (by simp)
    | cons next left =>
      rw [position_between_cons, position_between_cons] at hpos
      rw [offset_between, offset_between]
      omega
  · rintro rfl
    refine ⟨rfl, ?_⟩
    obtain ⟨before, byte, rest, rfl⟩ := exists_between_of_current hbyte
    simp

end ByteTokenizer.Cursor
