/-
  RUNS: what a tokenizer makes of a whole content.

  A run takes turns until the content is read or a turn fails.  A turn looks at the current byte:
  an ignored byte is stepped over, a byte without a meaning is a failure, and any other byte has
  the rules of its category dispatched.

  A dispatch has to make progress.  If the position is unchanged afterwards and there is still a
  current byte, the turn fails.  Position and current byte together miss nothing: the position
  alone does not change when the last byte is taken, but then no byte is current.  Since rules
  only advance the cursor, a turn that leads onward leads closer to the end
  (`left_lt_of_turn_eq_onward`), and that is why every run ends.

  A run keeps its dispatches, with the tokens of each, also when it fails; what the caller gets
  is all tokens or the failure.
-/
import ByteTokenizer.Tokenizer

namespace ByteTokenizer

/-! ## What a run leaves behind -/

/-- One dispatch of a category's rules. -/
structure Dispatch where
  /-- The byte that opened the category. -/
  byte : Byte
  /-- Where that byte stands. -/
  offset : Nat
  category : Category
  /-- How many rules were dispatched. -/
  rules : Nat
  /-- The tokens they gave. -/
  tokens : List Token
deriving DecidableEq

/-- What happened in a run. -/
structure Run where
  /-- The dispatches, first to last. -/
  dispatches : List Dispatch
  /-- What ended the run before the end of the content. -/
  failure : Option Failure
deriving DecidableEq

namespace Run

/-- A run that is at its end. -/
def finished : Run := { dispatches := [], failure := none }

/-- A run that fails at once. -/
def failed (failure : Failure) : Run := { dispatches := [], failure := some failure }

/-- The run with the dispatch of an earlier turn, if that turn had one. -/
def precededBy (r : Run) (dispatch : Option Dispatch) : Run :=
  { r with dispatches := dispatch.toList ++ r.dispatches }

/-- The tokens of all dispatches. -/
def tokens (r : Run) : List Token := r.dispatches.flatMap (·.tokens)

/-- All tokens, or the failure and none of them. -/
def result (r : Run) : Except Failure (List Token) :=
  match r.failure with
  | none => .ok r.tokens
  | some failure => .error failure

end Run

/-! ## One turn -/

/-- How one turn ends. -/
inductive Turn where
  /-- There is nothing left to read. -/
  | finished
  /-- The turn fails, perhaps in spite of a dispatch. -/
  | failed (dispatch : Option Dispatch) (failure : Failure)
  /-- The next turn is to begin at the cursor. -/
  | onward (dispatch : Option Dispatch) (next : Cursor)

namespace Tokenizer

/-- The turn that begins at the cursor. -/
def turn (t : Tokenizer) (c : Cursor) : Turn :=
  match c.current with
  | none => .finished
  | some byte =>
    match t.alphabet.classify byte with
    | none => .failed none (.unexpectedByte byte c.location)
    | some .ignored => .onward none c.advance
    | some (.opens category) =>
      let offset := c.offset
      let position := c.position
      let (tokens, next) := (t.dispatch category).run c
      let dispatch : Dispatch :=
        { byte, offset, category, rules := t.ruleCount category, tokens }
      if next.position = position ∧ next.atEnd = false then
        .failed (some dispatch) (.stalled category next.location)
      else .onward (some dispatch) next

/-- A turn that leads onward leads closer to the end. -/
theorem left_lt_of_turn_eq_onward {t : Tokenizer} {c next : Cursor} {dispatch : Option Dispatch}
    (h : t.turn c = .onward dispatch next) : next.left < c.left := by
  cases hcur : c.current with
  | none => simp [turn, hcur] at h
  | some byte =>
    have hbyte : c.current ≠ none := by simp [hcur]
    cases hclass : t.alphabet.classify byte with
    | none => simp [turn, hcur, hclass] at h
    | some meaning =>
      cases meaning with
      | ignored =>
        simp only [turn, hcur, hclass, Turn.onward.injEq] at h
        exact h.2 ▸ Cursor.left_advance_lt hbyte
      | opens category =>
        simp only [turn, hcur, hclass] at h
        split at h
        · exact nomatch h
        · next hmoved =>
          rw [Turn.onward.injEq] at h
          exact h.2 ▸ Cursor.left_lt_of_moved ((t.dispatch category).forward c) hbyte hmoved

/-! ## The whole run -/

/-- The run from a cursor on. -/
def runFrom (t : Tokenizer) (c : Cursor) : Run :=
  match h : t.turn c with
  | .finished => .finished
  | .failed dispatch failure => (Run.failed failure).precededBy dispatch
  | .onward dispatch next =>
    have : next.left < c.left := left_lt_of_turn_eq_onward h
    (t.runFrom next).precededBy dispatch
termination_by c.left

theorem runFrom_of_finished {t : Tokenizer} {c : Cursor} (h : t.turn c = .finished) :
    t.runFrom c = .finished := by
  rw [runFrom]
  split <;> simp_all

theorem runFrom_of_failed {t : Tokenizer} {c : Cursor} {dispatch : Option Dispatch}
    {failure : Failure} (h : t.turn c = .failed dispatch failure) :
    t.runFrom c = (Run.failed failure).precededBy dispatch := by
  rw [runFrom]
  split <;> simp_all

theorem runFrom_of_onward {t : Tokenizer} {c next : Cursor} {dispatch : Option Dispatch}
    (h : t.turn c = .onward dispatch next) :
    t.runFrom c = (t.runFrom next).precededBy dispatch := by
  rw [runFrom]
  split <;> simp_all

/-- The run over a content: the first advance loads its first byte. -/
def run (t : Tokenizer) (content : List Byte) : Run := t.runFrom (Cursor.fresh content).advance

/-- The tokens of a content. -/
def tokenize (t : Tokenizer) (content : List Byte) : Except Failure (List Token) :=
  (t.run content).result

/-- The tokens of a content that may be absent. -/
def tokenize? (t : Tokenizer) (content : Option (List Byte)) : Except Failure (List Token) := do
  let c ← Cursor.ofContent? content
  (t.runFrom c.advance).result

theorem tokenize?_none (t : Tokenizer) : t.tokenize? none = .error .absentContent := rfl

theorem tokenize?_some (t : Tokenizer) (content : List Byte) :
    t.tokenize? (some content) = t.tokenize content := rfl

end Tokenizer

end ByteTokenizer
