/-
  MINDFUL TOKENIZERS: rules that remember.

  A rule may keep something from one call to the next, for instance the number of its calls, and
  what it makes of the bytes at the cursor may depend on what it has kept.  All that the rules of
  a tokenizer keep is one memory; every rule is called with the memory that the call before it
  has left, whether that call was in the same dispatch, in an earlier turn or in an earlier run.

  Turns and runs are those of plain tokenizers with the memory handed on.  A turn that leads
  onward leads closer to the end whatever the rules remember (`left_lt_of_turn_eq_onward`), and
  that is why these runs end, too.  What a run gives is what happened in it and the memory
  afterwards, also when it fails.
-/
import ByteTokenizer.Tokenizer.Run

namespace ByteTokenizer

/-- A rule that may remember: with a memory it makes one token from the bytes at the cursor, and
    it says what is in the memory afterwards. -/
abbrev MindfulRule (σ : Type) := σ → Scan (Token × σ)

variable {σ : Type}

/-- The plain rule among rules that remember: it does not touch the memory. -/
def Rule.mindful (rule : Rule) : MindfulRule σ := fun s => do
  let token ← rule
  return (token, s)

/-- An alphabet with the rules of each category, which may remember. -/
structure Mindful (σ : Type) where
  alphabet : Alphabet
  rules : Registry (MindfulRule σ) := .empty

namespace Mindful

/-! ## Dispatching a category -/

/-- Every rule of the list in turn, each with the memory that the one before has left. -/
def applyAll : List (MindfulRule σ) → σ → Scan (List Token × σ)
  | [], s => return ([], s)
  | rule :: rules, s => do
    let first ← rule s
    let others ← applyAll rules first.2
    return (first.1 :: others.1, others.2)

/-- Steps over the marker, if the category has one, and applies the category's rules. -/
def dispatch (t : Mindful σ) (category : Category) (s : σ) : Scan (List Token × σ) := do
  if category.hasMarker then
    Scan.advance
  applyAll (t.rules category) s

/-! ## One turn -/

/-- The turn that begins with the memory at the cursor, and the memory after it. -/
def turn (t : Mindful σ) (s : σ) (c : Cursor) : Turn × σ :=
  match c.current with
  | none => (.finished, s)
  | some byte =>
    match t.alphabet.classify byte with
    | none => (.failed none (.unexpectedByte byte c.location), s)
    | some .ignored => (.onward none c.advance, s)
    | some (.opens category) =>
      let offset := c.offset
      let position := c.position
      let ((tokens, last), next) := (t.dispatch category s).run c
      let dispatch : Dispatch :=
        { byte, offset, category, rules := t.rules.count category, tokens }
      if next.position = position ∧ next.atEnd = false then
        (.failed (some dispatch) (.stalled category next.location), last)
      else (.onward (some dispatch) next, last)

/-- A turn that leads onward leads closer to the end. -/
theorem left_lt_of_turn_eq_onward {t : Mindful σ} {s last : σ} {c next : Cursor}
    {dispatch : Option Dispatch} (h : t.turn s c = (.onward dispatch next, last)) :
    next.left < c.left := by
  cases hcur : c.current with
  | none => simp [turn, hcur] at h
  | some byte =>
    have hbyte : c.current ≠ none := by simp [hcur]
    rcases hclass : t.alphabet.classify byte with _ | _ | category
    · simp [turn, hcur, hclass] at h
    · simp only [turn, hcur, hclass, Prod.mk.injEq, Turn.onward.injEq] at h
      exact h.1.2 ▸ Cursor.left_advance_lt hbyte
    · simp only [turn, hcur, hclass] at h
      split at h
      · exact nomatch congrArg Prod.fst h
      · next hmoved =>
        rw [Prod.mk.injEq, Turn.onward.injEq] at h
        exact h.1.2 ▸ Cursor.left_lt_of_moved ((t.dispatch category s).forward c) hbyte hmoved

/-! ## The whole run -/

/-- The run that begins with the memory at the cursor, and the memory after it. -/
def runFrom (t : Mindful σ) (s : σ) (c : Cursor) : Run × σ :=
  match h : t.turn s c with
  | (.finished, last) => (.finished, last)
  | (.failed dispatch failure, last) => ((Run.failed failure).precededBy dispatch, last)
  | (.onward dispatch next, last) =>
    have : next.left < c.left := left_lt_of_turn_eq_onward h
    let (r, last) := t.runFrom last next
    (r.precededBy dispatch, last)
termination_by c.left

variable {t : Mindful σ} {s last : σ} {c next : Cursor} {dispatch : Option Dispatch}
  {failure : Failure}

theorem runFrom_of_finished (h : t.turn s c = (.finished, last)) :
    t.runFrom s c = (.finished, last) := by
  rw [runFrom]
  split <;> simp_all

theorem runFrom_of_failed (h : t.turn s c = (.failed dispatch failure, last)) :
    t.runFrom s c = ((Run.failed failure).precededBy dispatch, last) := by
  rw [runFrom]
  split <;> simp_all

theorem runFrom_of_onward (h : t.turn s c = (.onward dispatch next, last)) :
    t.runFrom s c
      = ((t.runFrom last next).1.precededBy dispatch, (t.runFrom last next).2) := by
  rw [runFrom]
  split <;> simp_all

/-- The run over a content, begun with the memory, and the memory after it. -/
def run (t : Mindful σ) (s : σ) (content : List Byte) : Run × σ :=
  t.runFrom s (Cursor.fresh content).advance

end Mindful

end ByteTokenizer
