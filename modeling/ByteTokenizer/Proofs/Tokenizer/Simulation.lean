/-
  RUNS THAT GO ALIKE: one run read off another.

  Two runs are often the same but for a translation: the places are counted from elsewhere, or the
  bytes have other names.  Let `m` translate cursors, `d` dispatches and `f` failures.  If every
  turn of the second tokenizer at a translated cursor is the translated turn of the first, then
  the same holds of whole runs (`runFrom_map`).  So it is enough to compare turns, and there are
  only five of them.
-/
import ByteTokenizer.Proofs.Tokenizer.Head

namespace ByteTokenizer

open Cursor (between)

/-- The turn with its dispatch, its failure and its cursor translated. -/
def Turn.map (d : Dispatch → Dispatch) (f : Failure → Failure) (m : Cursor → Cursor) :
    Turn → Turn
  | .finished => .finished
  | .failed dispatch failure => .failed (dispatch.map d) (f failure)
  | .onward dispatch next => .onward (dispatch.map d) (m next)

/-- The run with its dispatches and its failure translated. -/
def Run.map (d : Dispatch → Dispatch) (f : Failure → Failure) (r : Run) : Run where
  dispatches := r.dispatches.map d
  failure := r.failure.map f

theorem Run.map_precededBy (d : Dispatch → Dispatch) (f : Failure → Failure) (r : Run)
    (dispatch : Option Dispatch) :
    (r.precededBy dispatch).map d f = (r.map d f).precededBy (dispatch.map d) := by
  cases dispatch <;> rfl

variable {t t' : Tokenizer} {d : Dispatch → Dispatch} {f : Failure → Failure}
  {m : Cursor → Cursor}

/-- Runs are translated as soon as all turns are. -/
theorem Tokenizer.runFrom_map
    (hturns : ∀ before ahead,
      t'.turn (m (between before ahead)) = (t.turn (between before ahead)).map d f m)
    (before ahead : List Byte) :
    t'.runFrom (m (between before ahead)) = (t.runFrom (between before ahead)).map d f := by
  refine t.runFrom_induction
    (motive := fun before ahead r => t'.runFrom (m (between before ahead)) = r.map d f)
    ?_ ?_ ?_ before ahead
  · intro before
    have hturn' := hturns before []
    rw [TurnsTo.ended.turn_eq] at hturn'
    rw [runFrom_of_finished hturn']
    rfl
  · intro before ahead dispatch failure hfailed
    have hturn' := hturns before ahead
    rw [hfailed.turn_eq] at hturn'
    rw [runFrom_of_failed hturn', Run.map_precededBy]
    rfl
  · intro before used left dispatch r honward ih
    have hturn' := hturns before (used ++ left)
    rw [honward.turn_eq] at hturn'
    rw [runFrom_of_onward hturn', Run.map_precededBy, ih]

end ByteTokenizer
