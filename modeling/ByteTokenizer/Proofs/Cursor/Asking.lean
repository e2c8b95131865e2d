/-
  ASKING: what a test with a memory is asked about, and what becomes of its answers.

  A cursor that takes bytes by such a test asks it about the bytes ahead, one after the other.
  The questions themselves leave no trace in what is taken.  But a test is free to write down
  every byte that it is asked about (`recording`), and then its memory tells them all.

  `Asking` says where the questions stop: behind the accepted bytes stands the first one that is
  refused, or nothing.  There is such a place ahead of every cursor (`exists_asking`), and what is
  taken and remembered can be read off it (`Asking.accepted_eq`); so the same questions put to the
  recording test give the same bytes and, in its memory, the questions.
-/
import ByteTokenizer.Proofs.Cursor.ReadHead
import ByteTokenizer.Proofs.Rule.Pattern

namespace ByteTokenizer

variable {σ : Type} {ask : σ → Byte → Bool × σ} {memory : σ}

/-! ## Questions in a given order -/

/-- The answers of a test that is asked about the bytes one after the other. -/
def answers (ask : σ → Byte → Bool × σ) (memory : σ) : List Byte → List Bool
  | [] => []
  | b :: asked => (ask memory b).1 :: answers ask (ask memory b).2 asked

/-- What the test remembers after these questions. -/
def memoryAfter (ask : σ → Byte → Bool × σ) (memory : σ) : List Byte → σ
  | [] => memory
  | b :: asked => memoryAfter ask (ask memory b).2 asked

/-- The same test, which also writes down what it is asked about. -/
def recording (ask : σ → Byte → Bool × σ) (memory : σ × List Byte) (b : Byte) :
    Bool × σ × List Byte :=
  ((ask memory.1 b).1, (ask memory.1 b).2, memory.2 ++ [b])

theorem answers_recording (log asked : List Byte) :
    answers (recording ask) (memory, log) asked = answers ask memory asked := by
  induction asked generalizing memory log with
  | nil => rfl
  | cons b asked ih => exact congrArg ((ask memory b).1 :: ·) (ih (log ++ [b]))

theorem memoryAfter_recording (log asked : List Byte) :
    memoryAfter (recording ask) (memory, log) asked
      = (memoryAfter ask memory asked, log ++ asked) := by
  induction asked generalizing memory log with
  | nil => rw [List.append_nil]; rfl
  | cons b asked ih =>
    show memoryAfter (recording ask) ((ask memory b).2, log ++ [b]) asked = _
    rw [ih, List.append_assoc]
    rfl

/-- An accepted byte is taken, and the next question is put to what is remembered then. -/
theorem accepted_of_yes {b : Byte} (hyes : (ask memory b).1 = true) (rest : List Byte) :
    Cursor.accepted ask memory (b :: rest)
      = (b :: (Cursor.accepted ask (ask memory b).2 rest).1,
        (Cursor.accepted ask (ask memory b).2 rest).2) := by
  rw [Cursor.accepted]
  rcases hask : ask memory b with ⟨answer, memory'⟩
  rw [hask] at hyes
  cases hyes
  rfl

/-- Behind a refused byte nothing is asked. -/
theorem accepted_of_no {b : Byte} (hno : (ask memory b).1 = false) (rest : List Byte) :
    Cursor.accepted ask memory (b :: rest) = ([], (ask memory b).2) := by
  rw [Cursor.accepted]
  rcases hask : ask memory b with ⟨answer, memory'⟩
  rw [hask] at hno
  cases hno
  rfl

/-! ## Where the questions stop -/

/-- The test accepts the bytes `taken` one after the other and refuses the next one, if there is
    a next one; it is not asked about the `rest`. -/
structure Asking (ask : σ → Byte → Bool × σ) (memory : σ) (ahead taken : List Byte)
    (refused : Option Byte) (rest : List Byte) : Prop where
  ahead_eq : ahead = taken ++ refused.toList ++ rest
  answers_eq : answers ask memory (taken ++ refused.toList)
    = taken.map (fun _ => true) ++ refused.toList.map (fun _ => false)
  rest_eq : refused = none → rest = []

namespace Asking

theorem nil (ask : σ → Byte → Bool × σ) (memory : σ) : Asking ask memory [] [] none [] :=
  ⟨rfl, rfl, fun _ => rfl⟩

theorem refuse {b : Byte} (hno : (ask memory b).1 = false) (rest : List Byte) :
    Asking ask memory (b :: rest) [] (some b) rest :=
  ⟨rfl, congrArg (· :: []) hno, fun hnone => nomatch hnone⟩

theorem accept {b : Byte} {ahead taken rest : List Byte} {refused : Option Byte}
    (hyes : (ask memory b).1 = true)
    (h : Asking ask (ask memory b).2 ahead taken refused rest) :
    Asking ask memory (b :: ahead) (b :: taken) refused rest where
  ahead_eq := congrArg (b :: ·) h.ahead_eq
  answers_eq := by
    show (ask memory b).1 :: answers ask (ask memory b).2 (taken ++ refused.toList) = _
    rw [hyes, h.answers_eq]
    rfl
  rest_eq := h.rest_eq

variable {ahead taken rest : List Byte} {refused : Option Byte}

/-- Writing the questions down does not change the answers. -/
theorem record (h : Asking ask memory ahead taken refused rest) (log : List Byte) :
    Asking (recording ask) (memory, log) ahead taken refused rest :=
  ⟨h.ahead_eq, (answers_recording log _).trans h.answers_eq, h.rest_eq⟩

/-- The accepted bytes are taken, and what is remembered comes from these questions only. -/
theorem accepted_eq (h : Asking ask memory ahead taken refused rest) :
    Cursor.accepted ask memory ahead
      = (taken, memoryAfter ask memory (taken ++ refused.toList)) := by
  obtain ⟨rfl, hanswers, hrest⟩ := h
  induction taken generalizing memory with
  | nil =>
    cases refused with
    | none => rw [hrest rfl]; rfl
    | some b => exact accepted_of_no (List.cons.inj hanswers).1 rest
  | cons b taken ih =>
    obtain ⟨hyes, hmore⟩ := List.cons.inj hanswers
    show Cursor.accepted ask memory (b :: (taken ++ refused.toList ++ rest)) = _
    rw [accepted_of_yes hyes, ih hmore]
    rfl

end Asking

/-- Ahead of every cursor there is a place where the questions stop. -/
theorem exists_asking (ask : σ → Byte → Bool × σ) (memory : σ) (ahead : List Byte) :
    ∃ taken refused rest, Asking ask memory ahead taken refused rest := by
  induction ahead generalizing memory with
  | nil => exact ⟨[], none, [], .nil ask memory⟩
  | cons b rest ih =>
    cases hanswer : (ask memory b).1 with
    | false => exact ⟨[], some b, rest, .refuse hanswer rest⟩
    | true =>
      obtain ⟨taken, refused, left, hasking⟩ := ih (ask memory b).2
      exact ⟨b :: taken, refused, left, hasking.accept hanswer⟩

/-! ## A cursor that asks -/

namespace Cursor

/-- The current byte and those still to be read, or nothing where there is no current byte. -/
theorem ahead_eq_elim (c : Cursor) : c.ahead = c.current.elim [] (· :: c.remaining) := by
  cases c <;> rfl

/-- How a cursor takes the bytes `taken` by a test with a memory: it asks about these and about
    `refused`, asks no more about the `rest`, and ends as `next`. -/
structure AsksInOrder (ask : σ → Byte → Bool × σ) (memory : σ) (c : Cursor) (taken : List Byte)
    (refused : Option Byte) (rest : List Byte) (next : Cursor) : Prop where
  /-- The questions are about the first bytes from the current one on.  They stop behind the first
      answer that is no, or at the end. -/
  asking : Asking ask memory (c.current.elim [] (· :: c.remaining)) taken refused rest
  /-- The bytes answered yes are what is taken, and the memory is that of these questions. -/
  result_eq : c.takeWhileAsking ask memory
    = (taken, memoryAfter ask memory (taken ++ refused.toList), next)
  /-- A test that writes its questions down writes down these, each once and in this order. -/
  recorded_eq : ∀ log, c.takeWhileAsking (recording ask) (memory, log)
    = (taken, (memoryAfter ask memory (taken ++ refused.toList),
      log ++ (taken ++ refused.toList)), next)
  /-- A read head, which asks in a loop, does the same. -/
  loop_eq : c.head.takeWhileAsking ask memory
    = (taken, memoryAfter ask memory (taken ++ refused.toList), next.head)
  /-- There are as many questions as bytes taken, and one more for a refused byte. -/
  count_eq : (taken ++ refused.toList).length = taken.length + if refused = none then 0 else 1
  /-- The cursor ends on the refused byte, with the rest behind it. -/
  current_eq : next.current = refused
  remaining_eq : refused ≠ none → next.remaining = rest
  /-- Without a refused byte it ends behind all bytes, if it stood on one. -/
  end_eq : refused = none → next = if c.atEnd then c else past c.content.toArray
  offset_eq : next.offset = c.offset + taken.length

/-- Taking all that is ahead leads behind all bytes, if there is a current one. -/
theorem advanceBy_length_ahead (c : Cursor) :
    c.advanceBy c.ahead.length = if c.atEnd then c else past c.content.toArray := by
  by_cases hbyte : c.current = none
  · rw [ahead_eq_nil hbyte, atEnd, hbyte]
    rfl
  · obtain ⟨before, byte, rest, rfl⟩ := exists_between_of_current hbyte
    have hover := advanceBy_between before (byte :: rest) []
    rw [List.append_nil] at hover
    rw [ahead_between, hover, atEnd_between, content_between]
    rfl

/-- The questions say all that the cursor does. -/
theorem asksInOrder_of_asking {c : Cursor} {taken rest : List Byte} {refused : Option Byte}
    (h : Asking ask memory c.ahead taken refused rest) :
    c.AsksInOrder ask memory taken refused rest (c.advanceBy taken.length) := by
  have hresult : c.takeWhileAsking ask memory
      = (taken, memoryAfter ask memory (taken ++ refused.toList), c.advanceBy taken.length) := by
    rw [takeWhileAsking, h.accepted_eq]
  have hrecorded : ∀ log, c.takeWhileAsking (recording ask) (memory, log)
      = (taken, (memoryAfter ask memory (taken ++ refused.toList),
        log ++ (taken ++ refused.toList)), c.advanceBy taken.length) := by
    intro log
    rw [takeWhileAsking, (h.record log).accepted_eq, memoryAfter_recording]
  have hahead : c.ahead = taken ++ (refused.toList ++ rest) := by
    rw [h.ahead_eq, List.append_assoc]
  obtain ⟨hleft, hoffset⟩ := advanceBy_of_ahead hahead
  have hcurrent : (c.advanceBy taken.length).current = refused := by
    rw [current_eq_head?, hleft]
    cases refused with
    | none => rw [h.rest_eq rfl]; rfl
    | some b => rfl
  refine ⟨c.ahead_eq_elim ▸ h, hresult, hrecorded, ?_, ?_, hcurrent, ?_, ?_, hoffset⟩
  · rw [takeWhileAsking_head, hresult]
  · rw [List.length_append]
    cases refused <;> rfl
  · intro hsome
    obtain ⟨b, rfl⟩ := Option.ne_none_iff_exists'.1 hsome
    rw [ahead_eq_elim, hcurrent] at hleft
    exact (List.cons.inj hleft).2
  · rintro rfl
    have hall : taken = c.ahead := by
      rw [hahead, h.rest_eq rfl]
      exact (List.append_nil taken).symm
    rw [hall, advanceBy_length_ahead]

/-- How a cursor takes bytes by a test whose answers do not depend on a memory. -/
structure TakesLongest (test : Byte → Bool) (c : Cursor) (taken : List Byte) (next : Cursor) :
    Prop where
  result_eq : c.takeWhile test = (taken, next)
  /-- Whatever the test remembers besides, it makes no difference. -/
  asking_eq : ∀ {σ : Type} (ask : σ → Byte → Bool × σ), (∀ memory b, (ask memory b).1 = test b) →
    ∀ memory, (c.takeWhileAsking ask memory).1 = taken
      ∧ (c.takeWhileAsking ask memory).2.2 = next
  /-- What is taken begins what is ahead and is accepted, and nothing longer is so. -/
  isPrefix : taken <+: c.current.elim [] (· :: c.remaining)
  accepted : ∀ b ∈ taken, test b = true
  longest : ∀ more, more <+: c.current.elim [] (· :: c.remaining) →
    (∀ b ∈ more, test b = true) → more <+: taken
  /-- The same once more takes nothing and moves nothing. -/
  again : next.takeWhile test = ([], next)

/-- Answers that do not depend on the memory are those of `takeWhile`. -/
theorem accepted_of_steady {test : Byte → Bool} (hsteady : ∀ memory b, (ask memory b).1 = test b)
    (memory : σ) (ahead : List Byte) :
    (Cursor.accepted ask memory ahead).1 = ahead.takeWhile test := by
  induction ahead generalizing memory with
  | nil => rfl
  | cons b rest ih =>
    cases htest : test b with
    | false =>
      rw [accepted_of_no ((hsteady memory b).trans htest),
        List.takeWhile_cons_of_neg (by simp [htest])]
    | true =>
      rw [accepted_of_yes ((hsteady memory b).trans htest), ih, List.takeWhile_cons_of_pos htest]

theorem takesLongest (test : Byte → Bool) (c : Cursor) :
    c.TakesLongest test (c.takeWhile test).1 (c.takeWhile test).2 := by
  obtain ⟨taken, left, hahead, haccepted, hstop⟩ := exists_accepted_run test c.ahead
  have htaken : c.ahead.takeWhile test = taken := by
    rw [hahead, takeWhile_append_of_stop haccepted hstop]
  have hresult : c.takeWhile test = (taken, c.advanceBy taken.length) := by
    rw [takeWhile, htaken]
  rw [hresult]
  refine ⟨hresult, ?_, ?_, haccepted, ?_, ?_⟩
  · intro σ ask hsteady memory
    have hsame := (accepted_of_steady hsteady memory c.ahead).trans htaken
    exact ⟨hsame, congrArg (fun bytes : List Byte => c.advanceBy bytes.length) hsame⟩
  · rw [← ahead_eq_elim]
    exact ⟨left, hahead.symm⟩
  · rintro more ⟨behind, hbehind⟩ hall
    rw [← ahead_eq_elim] at hbehind
    rw [← htaken, ← hbehind, List.takeWhile_append_of_pos hall]
    exact List.prefix_append more _
  · have hnothing : left.takeWhile test = [] := by
      simpa using takeWhile_append_of_stop (List.forall_mem_nil _) hstop
    rw [takeWhile, (advanceBy_of_ahead hahead).1, hnothing]
    rfl

end Cursor

/-- **Each question is asked once and in order.**  A cursor that takes bytes by a test with a
    memory asks about its bytes from the current one on, up to the first refusal; it takes what
    was accepted and stays on what was refused.  By a test without a memory it takes the longest
    accepted stretch, and nothing the second time. -/
theorem each_byte_is_asked_once (c : Cursor) :
    (∀ {σ : Type} (ask : σ → Byte → Bool × σ) (memory : σ),
        ∃ taken refused rest next, c.AsksInOrder ask memory taken refused rest next)
      ∧ ∀ test, c.TakesLongest test (c.takeWhile test).1 (c.takeWhile test).2 := by
  refine ⟨fun ask memory => ?_, fun test => c.takesLongest test⟩
  obtain ⟨taken, refused, rest, hasking⟩ := exists_asking ask memory c.ahead
  exact ⟨taken, refused, rest, _, Cursor.asksInOrder_of_asking hasking⟩

/-- A test that accepts as many bytes as it remembers. -/
def upTo (more : Nat) (_ : Byte) : Bool × Nat := (more != 0, more - 1)

open Cursor (between) in
-- two bytes are taken, and the third one has been asked about; a test that refuses it takes as much
theorem each_byte_is_asked_once_upTo :
    (between [] [0x61, 0x00, 0x62, 0x63]).takeWhileAsking (recording upTo) (2, [])
        = ([0x61, 0x00], (0, [0x61, 0x00, 0x62]), between [0x61, 0x00] [0x62, 0x63])
      ∧ [0x61] <+: ((between [] [0x61, 0x00, 0x62, 0x63]).takeWhile (· ≠ 0x62)).1
      ∧ (between [0x61, 0x00] [0x62, 0x63]).takeWhile (· ≠ 0x62)
        = ([], between [0x61, 0x00] [0x62, 0x63]) := by
  obtain ⟨hasks, hsteady⟩ := each_byte_is_asked_once (between [] [0x61, 0x00, 0x62, 0x63])
  obtain ⟨taken, refused, rest, next, hasked⟩ := hasks upTo 2
  have hrun : (between [] [0x61, 0x00, 0x62, 0x63]).takeWhileAsking upTo 2
      = ([0x61, 0x00], 0, between [0x61, 0x00] [0x62, 0x63]) := by decide
  have hresult := hasked.result_eq.symm.trans hrun
  obtain ⟨rfl, hpair⟩ := Prod.mk.inj hresult
  obtain ⟨hmemory, rfl⟩ := Prod.mk.inj hpair
  obtain rfl : some 0x62 = refused := hasked.current_eq
  have hlongest := hsteady (· ≠ 0x62)
  refine ⟨?_, hlongest.longest [0x61] (by decide) (List.all_eq_true.1 rfl), hlongest.again⟩
  rw [hasked.recorded_eq [], hmemory]
  rfl

end ByteTokenizer
