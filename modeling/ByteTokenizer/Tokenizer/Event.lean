/-
  EVENTS: the account that a tokenizer gives of its work.

  A tokenization that has content to read opens with the number of its bytes, notes every
  dispatch, and closes with the number of tokens or with the failure that ended it.  Ignored
  bytes leave no note, and without content nothing happens at all.
-/
import ByteTokenizer.Tokenizer.Run

namespace ByteTokenizer

/-- One note in the account of a tokenization. -/
inductive Event where
  /-- Reading begins; so many bytes are there. -/
  | opened (length : Nat)
  /-- The rules of a category are dispatched. -/
  | dispatched (dispatch : Dispatch)
  /-- The content was read to its end, with so many tokens. -/
  | closed (count : Nat)
  /-- Reading ended with a failure. -/
  | aborted (failure : Failure)
deriving DecidableEq

/-- How the account of a run ends. -/
def Run.closing (r : Run) : Event :=
  match r.failure with
  | none => .closed r.tokens.length
  | some failure => .aborted failure

/-- The account of a run over so many bytes. -/
def Run.events (r : Run) (length : Nat) : List Event :=
  .opened length :: (r.dispatches.map .dispatched ++ [r.closing])

/-- The account of tokenizing a content that may be absent. -/
def Tokenizer.events (t : Tokenizer) : Option (List Byte) → List Event
  | none => []
  | some content => (t.run content).events content.length

end ByteTokenizer
