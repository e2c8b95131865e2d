/-
  PROGRESS: every run comes to an end, whatever its rules do.

  The rules of a run are unknown: all that is promised is that they advance the cursor, each time
  by a number of places of their own choice.  That much is in the type of a rule, so patterns
  promise it, and so does whatever is put together from other scans.  A turn then either ends the
  run or takes at least one byte, so the offset grows from head to head, and since it never passes
  the length of the content there are at most as many turns as bytes.

  The crux is the check after a dispatch, which compares positions and not offsets.  The position
  does not change when the last byte is taken (`last_byte`), but then no byte is current, and the
  check looks at that too.  So what it stops are exactly the dispatches that leave the offset as
  it was (`check`): it misses no turn without progress and stops no turn with progress.
-/
import ByteTokenizer.Proofs.Tokenizer.Head

namespace ByteTokenizer

open Cursor (between)

/-- What is so at the head of turn `n` of a run over the content. -/
structure ProgressAt (v : Varying) (content : List Byte) (n : Nat) (h : Head) : Prop where
  /-- Turns at a byte are no more numerous than bytes. -/
  turns_lt : h.cursor.current ≠ none → n < content.length
  /-- The offset stays within the content. -/
  offset_le : h.cursor.offset ≤ content.length
  /-- The turn finds nothing ahead, or fails, or leads to a greater offset in the content. -/
  turn : (h.cursor.current = none ∧ (v.inTurn n).turn h.cursor = .finished)
    ∨ (∃ dispatch failure, (v.inTurn n).turn h.cursor = .failed dispatch failure)
    ∨ ∃ dispatch next, (v.inTurn n).turn h.cursor = .onward dispatch next
      ∧ h.cursor.offset < next.offset ∧ next.offset ≤ content.length
  /-- The check after a dispatch finds the position unchanged and a byte current exactly if the
      offset is unchanged, and exactly then the turn fails. -/
  check : ∀ byte category, h.cursor.current = some byte →
    v.alphabet.classify byte = some (.opens category) →
    ∀ tokens next, ((v.inTurn n).dispatch category).run h.cursor = (tokens, next) →
      ((next.position = h.cursor.position ∧ next.atEnd = false)
        ↔ next.offset = h.cursor.offset)
      ∧ (next.offset = h.cursor.offset
        ↔ ∃ dispatch location,
          (v.inTurn n).turn h.cursor = .failed dispatch (.stalled category location))
  /-- Taking the last byte leaves the position alone and makes progress nevertheless. -/
  last_byte : h.cursor.current ≠ none → h.cursor.remaining = [] →
    h.cursor.advance.position = h.cursor.position
      ∧ h.cursor.advance.offset = h.cursor.offset + 1

namespace Varying

variable {v : Varying} {content : List Byte} {n : Nat} {h : Head}

/-- The check of a dispatch from a byte: the old position with a current byte, the old offset
    and the failure of the turn come to the same. -/
theorem check_of_dispatch {t : Tokenizer} {c : Cursor} {byte : Byte} {category : Category}
    (hbyte : c.current = some byte) (hclass : t.alphabet.classify byte = some (.opens category))
    {tokens : List Token} {next : Cursor}
    (hrun : (t.dispatch category).run c = (tokens, next)) :
    ((next.position = c.position ∧ next.atEnd = false) ↔ next.offset = c.offset)
      ∧ (next.offset = c.offset
        ↔ ∃ dispatch location, t.turn c = .failed dispatch (.stalled category location)) := by
  have hcur : c.current ≠ none := by simp [hbyte]
  have hreach : c.Reaches next := by simpa [hrun] using (t.dispatch category).forward c
  obtain ⟨before, first, rest, rfl⟩ := Cursor.exists_between_of_current hcur
  obtain rfl : first = byte := by simpa using hbyte
  refine ⟨(hreach.stuck_iff hcur).trans (hreach.eq_iff_offset hcur), ?_⟩
  rw [← hreach.eq_iff_offset hcur, Tokenizer.turn_of_opens hclass]
  simp only [hrun]
  constructor
  · intro hsame
    rw [if_pos hsame]
    exact ⟨_, _, rfl⟩
  · rintro ⟨dispatch, location, hfailed⟩
    split at hfailed
    · next hsame => exact hsame
    · exact nomatch hfailed

theorem progressAt_of_head (hhead : v.head content n = some h) : ProgressAt v content n h := by
  obtain ⟨before, ahead, hcontent, hn, hcursor⟩ := exists_between_of_head hhead
  have hlen : content.length = before.length + ahead.length := by
    rw [hcontent, List.length_append]
  constructor
  case turns_lt =>
    intro hcur
    rw [hcursor, Cursor.current_between] at hcur
    have hpos : 0 < ahead.length := List.length_pos_iff.2 fun hnil => hcur (by rw [hnil]; rfl)
    omega
  case offset_le =>
    rw [hcursor, Cursor.offset_between]
    omega
  case turn =>
    cases hturn : (v.inTurn n).turn h.cursor with
    | finished =>
      refine Or.inl ⟨?_, rfl⟩
      cases Tokenizer.turnsTo_of_turn_eq hcursor hturn
      rw [hcursor, Cursor.current_between]
      rfl
    | failed dispatch failure => exact Or.inr (Or.inl ⟨dispatch, failure, rfl⟩)
    | onward dispatch next =>
      exact Or.inr (Or.inr ⟨dispatch, next, rfl, offset_lt_of_onward hhead hturn⟩)
  case check =>
    intro byte category hbyte hclass tokens next hrun
    exact check_of_dispatch hbyte hclass hrun
  case last_byte =>
    intro hcur hrest
    obtain ⟨before', byte, rest, heq⟩ := Cursor.exists_between_of_current hcur
    rw [heq] at hrest ⊢
    obtain rfl : rest = [] := hrest
    rw [Cursor.advance_between_cons, Cursor.position_between_nil, Cursor.position_between_cons,
      Cursor.offset_between, Cursor.offset_between]
    simp

/-- What a run gives is a list of tokens or one of the two failures that name a place. -/
theorem tokenize?_outcome (v : Varying) (content : List Byte) :
    (∃ tokens, v.tokenize? (some content) = .ok tokens)
      ∨ (∃ byte location, v.tokenize? (some content) = .error (.unexpectedByte byte location))
      ∨ ∃ category location,
        v.tokenize? (some content) = .error (.stalled category location) := by
  rw [tokenize?_some]
  cases hresult : (v.run content).result with
  | ok tokens => exact Or.inl ⟨tokens, rfl⟩
  | error failure =>
    obtain ⟨n, h, dispatch, hhead, hturn⟩ := exists_head_of_result_error hresult
    obtain ⟨before, ahead, -, -, hcursor⟩ := exists_between_of_head hhead
    cases Tokenizer.turnsTo_of_turn_eq hcursor hturn with
    | unknown hclass => exact Or.inr (Or.inl ⟨_, _, rfl⟩)
    | stalled hclass hrun => exact Or.inr (Or.inr ⟨_, _, rfl⟩)

end Varying

/-- **Every run ends.**  For rules of which nothing is known but that they advance the cursor:
    each turn ends the run or makes progress (`ProgressAt`), there is a last head after at most
    as many turns as there are bytes, and the outcome is a list of tokens, an unexpected byte or
    a stalled category.  A plain tokenizer is one such case. -/
theorem run_ends (v : Varying) (content : List Byte) :
    (∀ n h, v.head content n = some h → ProgressAt v content n h)
      ∧ (∃ n h, n ≤ content.length ∧ v.head content n = some h
        ∧ v.head content (n + 1) = none)
      ∧ ((∃ tokens, v.tokenize? (some content) = .ok tokens)
        ∨ (∃ byte location, v.tokenize? (some content) = .error (.unexpectedByte byte location))
        ∨ ∃ category location,
          v.tokenize? (some content) = .error (.stalled category location))
      ∧ ∀ t : Tokenizer, t.steady.tokenize? (some content) = t.tokenize content := by
  refine ⟨fun n h hhead => Varying.progressAt_of_head hhead, ?_, v.tokenize?_outcome content,
    fun t => t.steady.tokenize?_some content ▸ congrArg Run.result (Varying.run_steady t content)⟩
  obtain ⟨n, h, hle, hhead, hlast, -⟩ := v.exists_last_head content
  exact ⟨n, h, hle, hhead, hlast⟩

/-- Rules that take a byte in every other turn and do nothing in between. -/
def everyOther : Varying where
  alphabet := { numbers := .digits }
  rules n _ := if n % 2 = 0 then [Pattern.rule ⟨.number, .single⟩] else []

-- the run over two digits takes the first one and stalls at the second, the last byte
theorem run_ends_everyOther :
    everyOther.head [0x37, 0x38] 1
        = some ⟨[⟨0x37, 0, .number, 1, [⟨.number, [0x37]⟩]⟩], .on #[0x37] 0x38 []⟩
      ∧ ProgressAt everyOther [0x37, 0x38] 1
        ⟨[⟨0x37, 0, .number, 1, [⟨.number, [0x37]⟩]⟩], .on #[0x37] 0x38 []⟩
      ∧ everyOther.head [0x37, 0x38] 2 = none :=
  ⟨by decide, (run_ends everyOther [0x37, 0x38]).1 1 _ (by decide), by decide⟩

end ByteTokenizer
