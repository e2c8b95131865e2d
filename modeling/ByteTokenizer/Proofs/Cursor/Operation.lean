/-
  OPERATIONS ON CURSORS: what becomes of a cursor, whatever is done to it.

  A cursor is advanced, takes bytes as long as a test with a memory accepts them, or is handed to
  the rule of a pattern.  It may also be copied, and from then on the copy has a history of its
  own; so a history is a row of cursors and the steps taken with them (`Step.run`).

  The crux is that an operation only ever advances the cursor (`reaches_apply`), so what holds of
  an advance holds of every history: positions and offsets do not decrease, and a cursor that has
  lost its current byte in an advance stays as it is.  As a fresh cursor can be advanced to a new
  place only once for each byte and once more, so many advances lead to any cursor of a history
  (`Reaches.exists_advanceBy_le`), and all of them are placed in their content (`Placed`).  The same
  holds of read heads, as they go the same way (`map_head_run`).
-/
import ByteTokenizer.Proofs.Cursor.ReadHead

namespace ByteTokenizer

/-- What can be done to a cursor. -/
inductive Operation : Type 1 where
  | advance
  /-- Taking bytes as long as a test with a memory accepts them. -/
  | takeWhile {σ : Type} (ask : σ → Byte → Bool × σ) (memory : σ)
  /-- Running the rule of a pattern. -/
  | lex (pattern : Pattern)

/-- The cursor after an operation. -/
def Cursor.apply (c : Cursor) : Operation → Cursor
  | .advance => c.advance
  | .takeWhile ask memory => (c.takeWhileAsking ask memory).2.2
  | .lex pattern => (pattern.rule.run c).2

/-- The read head after an operation. -/
def ReadHead.apply (h : ReadHead) : Operation → ReadHead
  | .advance => h.advance
  | .takeWhile ask memory => (h.takeWhileAsking ask memory).2.2
  | .lex pattern => (h.take pattern.shape).2

/-- Read heads and cursors go the same way. -/
theorem Cursor.head_apply (c : Cursor) (operation : Operation) :
    (c.apply operation).head = c.head.apply operation := by
  cases operation with
  | advance => exact head_advance c
  | takeWhile ask memory => rw [ReadHead.apply, takeWhileAsking_head]; rfl
  | lex pattern => rw [ReadHead.apply, take_head]; rfl

/-- An operation does nothing but advance. -/
theorem Cursor.reaches_apply (c : Cursor) (operation : Operation) :
    c.Reaches (c.apply operation) := by
  cases operation with
  | advance => exact .advance c
  | takeWhile ask memory => exact .advanceBy c _
  | lex pattern => exact pattern.rule.forward c

/-! ## Steps -/

/-- A step of a history: something is done to one cursor of the row, or a copy of it is put
    behind the row. -/
inductive Step : Type 1 where
  | act (which : Nat) (operation : Operation)
  | copy (which : Nat)

namespace Step

variable {α : Type}

/-- The row after a step, where `apply` is what the operations do. -/
def on (apply : α → Operation → α) (row : List α) : Step → List α
  | act which operation => row.modify which (apply · operation)
  | copy which => row ++ row[which]?.toList

/-- The row after all steps of a history. -/
def run (apply : α → Operation → α) (row : List α) (steps : List Step) : List α :=
  steps.foldl (on apply) row

theorem run_append (apply : α → Operation → α) (row : List α) (steps later : List Step) :
    run apply row (steps ++ later) = run apply (run apply row steps) later :=
  List.foldl_append

/-- Read heads go through a history as the cursors do. -/
theorem map_head_on (row : List Cursor) (step : Step) :
    (on Cursor.apply row step).map Cursor.head
      = on ReadHead.apply (row.map Cursor.head) step := by
  cases step with
  | act which operation =>
    refine List.ext_getElem? fun index => ?_
    simp only [on, List.getElem?_map, List.getElem?_modify]
    cases row[index]? with
    | none => rfl
    | some c =>
      show some (if which = index then c.apply operation else c).head
        = some (if which = index then c.head.apply operation else c.head)
      rw [apply_ite Cursor.head, Cursor.head_apply]
  | copy which =>
    rw [on, on, List.map_append, List.getElem?_map]
    cases row[which]? <;> rfl

theorem map_head_run (row : List Cursor) (steps : List Step) :
    (run Cursor.apply row steps).map Cursor.head
      = run ReadHead.apply (row.map Cursor.head) steps := by
  induction steps generalizing row with
  | nil => rfl
  | cons step steps ih =>
    exact (ih (on Cursor.apply row step)).trans
      (congrArg (run ReadHead.apply · steps) (map_head_on row step))

/-- A cursor keeps its index in a step, and is advanced. -/
theorem getElem?_on {row : List Cursor} {which : Nat} {c : Cursor} (hc : row[which]? = some c)
    (step : Step) : ∃ d, (on Cursor.apply row step)[which]? = some d ∧ c.Reaches d := by
  cases step with
  | act other operation =>
    rw [on, List.getElem?_modify, hc]
    by_cases hsame : other = which
    · exact ⟨c.apply operation, congrArg some (if_pos hsame), c.reaches_apply operation⟩
    · exact ⟨c, congrArg some (if_neg hsame), .refl c⟩
  | copy other =>
    obtain ⟨hlt, -⟩ := List.getElem?_eq_some_iff.1 hc
    exact ⟨c, by rw [on, List.getElem?_append_left hlt, hc], .refl c⟩

theorem getElem?_run {row : List Cursor} {which : Nat} {c : Cursor} (hc : row[which]? = some c)
    (steps : List Step) :
    ∃ d, (run Cursor.apply row steps)[which]? = some d ∧ c.Reaches d := by
  induction steps generalizing row c with
  | nil => exact ⟨c, hc, .refl c⟩
  | cons step steps ih =>
    obtain ⟨d, hd, hcd⟩ := getElem?_on hc step
    obtain ⟨e, he, hde⟩ := ih hd
    exact ⟨e, he, hcd.trans hde⟩

/-- A cursor of the row after a step, a copy or not, comes from one of the row before. -/
theorem exists_of_mem_on {row : List Cursor} {step : Step} {d : Cursor}
    (hd : d ∈ on Cursor.apply row step) : ∃ c ∈ row, c.Reaches d := by
  cases step with
  | act which operation =>
    obtain ⟨index, hindex⟩ := List.mem_iff_getElem?.1 hd
    rw [on, List.getElem?_modify] at hindex
    obtain ⟨c, hc, hcd⟩ := Option.map_eq_some_iff.1 hindex
    refine ⟨c, List.mem_of_getElem? hc, ?_⟩
    rw [← hcd]
    split
    · exact c.reaches_apply operation
    · exact .refl c
  | copy which =>
    rcases List.mem_append.1 hd with hrow | hcopy
    · exact ⟨d, hrow, .refl d⟩
    · exact ⟨d, List.mem_of_getElem? (Option.mem_toList.1 hcopy), .refl d⟩

theorem exists_of_mem_run {row : List Cursor} {steps : List Step} {d : Cursor}
    (hd : d ∈ run Cursor.apply row steps) : ∃ c ∈ row, c.Reaches d := by
  induction steps generalizing row with
  | nil => exact ⟨d, hd, .refl d⟩
  | cons step steps ih =>
    obtain ⟨middle, hmiddle, hmd⟩ := ih hd
    obtain ⟨c, hc, hcm⟩ := exists_of_mem_on hmiddle
    exact ⟨c, hc, hcm.trans hmd⟩

end Step

/-! ## What advancing keeps -/

namespace Cursor

/-- A number that no advance makes smaller is not smaller further on. -/
theorem Reaches.le_of_advance {c d : Cursor} (h : c.Reaches d) {measure : Cursor → Nat}
    (hadvance : ∀ e : Cursor, measure e ≤ measure e.advance) : measure c ≤ measure d := by
  obtain ⟨n, rfl⟩ := h
  induction n generalizing c with
  | zero => exact Nat.le_refl _
  | succ n ih => exact Nat.le_trans (hadvance c) ih

theorem offset_le_advance (c : Cursor) : c.offset ≤ c.advance.offset := by
  match c with
  | fresh [] => exact Nat.le_refl _
  | fresh (_ :: _) => exact Nat.zero_le _
  | on _ _ [] => simp [advance, offset]
  | on _ _ (_ :: _) => simp [advance, offset]
  | past _ => exact Nat.le_refl _

theorem position_le_advance (c : Cursor) : c.position ≤ c.advance.position := by
  match c with
  | fresh [] => exact Nat.le_refl _
  | fresh (_ :: _) => exact Nat.zero_le _
  | on _ _ [] => simp [advance, position]
  | on _ _ (_ :: _) => simp [advance, position]
  | past _ => exact Nat.le_refl _

/-- Where an advance has left no current byte, further advances change nothing. -/
theorem Reaches.eq_of_end {c d : Cursor} (h : c.advance.Reaches d)
    (hend : c.advance.current = none) : d = c.advance := by
  have hstay : c.advance.advance = c.advance := by
    match c with
    | fresh [] => rfl
    | fresh (_ :: _) => exact nomatch hend
    | on _ _ [] => rfl
    | on _ _ (_ :: _) => exact nomatch hend
    | past _ => rfl
  obtain ⟨n, rfl⟩ := h
  induction n with
  | zero => rfl
  | succ n ih => rw [Cursor.advanceBy, hstay, ih]

/-- No more advances are needed than there are left. -/
theorem Reaches.exists_advanceBy_le {content : List Byte} {d : Cursor}
    (h : (fresh content).Reaches d) :
    ∃ n, n ≤ content.length + 1 ∧ d = (fresh content).advanceBy n := by
  obtain ⟨_ | n, rfl⟩ := h
  · exact ⟨0, Nat.zero_le _, rfl⟩
  · rw [Cursor.advanceBy, advance_fresh]
    obtain ⟨used, rest, hcontent, hd⟩ := (Reaches.advanceBy (between [] content) n).exists_used
    refine ⟨used.length + 1, ?_, ?_⟩
    · rw [hcontent, List.length_append]
      omega
    · rw [hd, Cursor.advanceBy, advance_fresh, hcontent, advanceBy_between]

/-! ## Places in the content -/

/-- The cursor is placed in the content, and so is its read head. -/
structure Placed (content : List Byte) (c : Cursor) : Prop where
  /-- At most one advance for each byte and one more lead to it. -/
  advances : ∃ n, n ≤ content.length + 1 ∧ c = (fresh content).advanceBy n
  content_eq : c.content = content
  position_le : c.position ≤ content.length
  /-- The bytes before the offset, the current one and those behind it are the content. -/
  parts : content = content.take c.offset ++ c.current.toList ++ c.remaining
  peek_eq : c.peek = c.remaining.head?
  /-- There is no current byte only before the first advance and at the end. -/
  place_of_atEnd : c.atEnd = true →
    (c = fresh content ∧ c.position = 0) ∨ c.position = content.length
  /-- The subtraction of the read head does not go below zero. -/
  offset?_head : c.head.offset? = some c.offset
  /-- The cut of the read head does not begin behind the end. -/
  remaining?_head : c.head.remaining? = some c.remaining
  peek_head : c.head.peek = c.peek

theorem content_eq_parts (c : Cursor) :
    c.content = c.content.take c.offset ++ c.current.toList ++ c.remaining := by
  cases c with
  | fresh content => rfl
  | on before byte rest =>
    rw [offset, content, ← Array.length_toList, List.take_left, List.append_assoc]
    rfl
  | past content =>
    show content.toList = content.toList.take content.size ++ [] ++ []
    rw [← Array.length_toList, List.take_length, List.append_nil, List.append_nil]

theorem placed_of_reaches {content : List Byte} {c : Cursor} (h : (fresh content).Reaches c) :
    Placed content c := by
  have hcontent : c.content = content := h.content_eq
  refine ⟨h.exists_advanceBy_le, hcontent, hcontent ▸ c.position_le,
    hcontent ▸ c.content_eq_parts, rfl, fun hend => ?_, offset?_head c, remaining?_head c,
    peek_head c⟩
  cases c with
  | fresh content => exact .inl ⟨congrArg fresh hcontent, rfl⟩
  | on before byte rest => exact nomatch hend
  | past bytes => exact .inr (congrArg List.length hcontent)

end Cursor

/-! ## Histories of a fresh cursor -/

open Cursor (fresh between Placed)

/-- What is so of all histories that begin with one fresh cursor of the content. -/
structure KeepsPlace (content : List Byte) : Prop where
  /-- All cursors are placed in the content. -/
  placed : ∀ steps : List Step, ∀ c ∈ Step.run Cursor.apply [fresh content] steps,
    Placed content c
  /-- They are where read heads get that go the same way by index and by loop. -/
  heads : ∀ steps : List Step, (Step.run Cursor.apply [fresh content] steps).map Cursor.head
    = Step.run ReadHead.apply [.new content] steps
  /-- No cursor is lost or goes back, and none is changed any more once an advance has left it
      no current byte. -/
  onward : ∀ (steps later : List Step) (which : Nat) (c : Cursor),
    (Step.run Cursor.apply [fresh content] steps)[which]? = some c →
    ∃ d, (Step.run Cursor.apply [fresh content] (steps ++ later))[which]? = some d
      ∧ c.position ≤ d.position ∧ c.offset ≤ d.offset
      ∧ ∀ e : Cursor, e.advance = c → c.current = none → d = c

/-- **Cursors keep their place.**  Whatever is done to a fresh cursor and to copies of it, each of
    them stays in the content and goes forward only. -/
theorem cursors_keep_their_place (content : List Byte) : KeepsPlace content where
  placed steps c hc := by
    obtain ⟨first, hfirst, hreaches⟩ := Step.exists_of_mem_run hc
    obtain rfl := List.mem_singleton.1 hfirst
    exact Cursor.placed_of_reaches hreaches
  heads := Step.map_head_run [fresh content]
  onward steps later which c hc := by
    obtain ⟨d, hd, hreaches⟩ := Step.getElem?_run hc later
    refine ⟨d, by rw [Step.run_append, hd], hreaches.le_of_advance Cursor.position_le_advance,
      hreaches.le_of_advance Cursor.offset_le_advance, ?_⟩
    rintro e rfl hend
    exact hreaches.eq_of_end hend

/-- A letter between two quotes. -/
def quotedLetter : List Byte := [0x22, 0x61, 0x22]

/-- The cursor is copied on the first quote, steps over it and reads up to the second one; the
    copy asks a test that accepts any two bytes. -/
def quotedLetterSteps : List Step :=
  [.act 0 .advance, .copy 0, .act 0 .advance,
    .act 0 (.lex ⟨.string, .delimited (.listed [0x22]) none⟩),
    .act 1 (.takeWhile (fun more _ => (more != 0, more - 1)) 2)]

-- the first cursor has come to the end, where nothing moves it; the copy stands on the second quote
theorem cursors_keep_their_place_copied :
    Step.run Cursor.apply [fresh quotedLetter] quotedLetterSteps
        = [.past #[0x22, 0x61, 0x22], between [0x22, 0x61] [0x22]]
      ∧ Placed quotedLetter (between [0x22, 0x61] [0x22])
      ∧ ∀ later, (Step.run Cursor.apply [fresh quotedLetter] (quotedLetterSteps ++ later))[0]?
        = some (.past #[0x22, 0x61, 0x22]) := by
  have hkept := cursors_keep_their_place quotedLetter
  have hrun : Step.run Cursor.apply [fresh quotedLetter] quotedLetterSteps
      = [.past #[0x22, 0x61, 0x22], between [0x22, 0x61] [0x22]] := by decide
  refine ⟨hrun, hkept.placed quotedLetterSteps _ (by rw [hrun]; decide), fun later => ?_⟩
  obtain ⟨d, hd, -, -, hstays⟩ := hkept.onward quotedLetterSteps later 0
    (.past #[0x22, 0x61, 0x22]) (by rw [hrun]; rfl)
  rw [hd, hstays (between [0x22, 0x61] [0x22]) rfl rfl]

end ByteTokenizer
