/-
  HOW FAR A CURSOR GETS: facts about advancing.

  `c.Reaches d` says that some number of advances leads from `c` to `d`.  Whatever a rule does,
  it does by advancing, so this is all that is known of the cursor after a rule has run, and it
  is enough: the content stays the same, and `left`, the number of advances that still lead to a
  new place, never grows.  `left_lt_of_moved` is what makes a run end: a cursor that stood on a
  byte and has changed its position, or has lost its current byte, has come closer to the end.
-/
import ByteTokenizer.Cursor

namespace ByteTokenizer.Cursor

/-! ## One advance -/

theorem content_advance (c : Cursor) : c.advance.content = c.content := by
  match c with
  | fresh [] => rfl
  | fresh (_ :: _) => rfl
  | on _ _ [] => simp [advance, content]
  | on _ _ (_ :: _) => simp [advance, content]
  | past _ => rfl

theorem left_advance_le (c : Cursor) : c.advance.left ≤ c.left := by
  match c with
  | fresh [] => exact Nat.zero_le _
  | fresh (_ :: _) => exact Nat.le_succ _
  | on _ _ [] => exact Nat.zero_le _
  | on _ _ (_ :: _) => exact Nat.le_succ _
  | past _ => exact Nat.le_refl _

/-- From a byte every advance leads to a new place. -/
theorem left_advance_lt {c : Cursor} (h : c.current ≠ none) : c.advance.left < c.left := by
  match c with
  | fresh _ => exact absurd rfl h
  | on _ _ [] => exact Nat.zero_lt_succ _
  | on _ _ (_ :: _) => exact Nat.lt_succ_self _
  | past _ => exact absurd rfl h

/-! ## Many advances -/

theorem advanceBy_add (c : Cursor) (m n : Nat) :
    c.advanceBy (m + n) = (c.advanceBy m).advanceBy n := by
  induction m generalizing c with
  | zero => rw [Nat.zero_add]; rfl
  | succ m ih => rw [Nat.succ_add]; exact ih c.advance

theorem content_advanceBy (c : Cursor) (n : Nat) : (c.advanceBy n).content = c.content := by
  induction n generalizing c with
  | zero => rfl
  | succ n ih => exact (ih c.advance).trans (content_advance c)

theorem left_advanceBy_le (c : Cursor) (n : Nat) : (c.advanceBy n).left ≤ c.left := by
  induction n generalizing c with
  | zero => exact Nat.le_refl _
  | succ n ih => exact Nat.le_trans (ih c.advance) (left_advance_le c)

/-! ## Reaching -/

/-- Some number of advances leads from the first cursor to the second. -/
def Reaches (c d : Cursor) : Prop := ∃ n, c.advanceBy n = d

namespace Reaches

theorem refl (c : Cursor) : c.Reaches c := ⟨0, rfl⟩

theorem advanceBy (c : Cursor) (n : Nat) : c.Reaches (c.advanceBy n) := ⟨n, rfl⟩

theorem advance (c : Cursor) : c.Reaches c.advance := ⟨1, rfl⟩

theorem trans {c d e : Cursor} (hcd : c.Reaches d) (hde : d.Reaches e) : c.Reaches e := by
  obtain ⟨m, rfl⟩ := hcd
  obtain ⟨n, rfl⟩ := hde
  exact ⟨m + n, advanceBy_add c m n⟩

theorem content_eq {c d : Cursor} (h : c.Reaches d) : d.content = c.content := by
  obtain ⟨n, rfl⟩ := h
  exact content_advanceBy c n

/-- A cursor that is reached from a byte and is not the same one has less left. -/
theorem left_lt {c d : Cursor} (h : c.Reaches d) (hbyte : c.current ≠ none) (hne : d ≠ c) :
    d.left < c.left := by
  obtain ⟨n, rfl⟩ := h
  cases n with
  | zero => exact absurd rfl hne
  | succ n => exact Nat.lt_of_le_of_lt (left_advanceBy_le c.advance n) (left_advance_lt hbyte)

end Reaches

/-- From a byte, a change of the position or the loss of the current byte is progress. -/
theorem left_lt_of_moved {c d : Cursor} (h : c.Reaches d) (hbyte : c.current ≠ none)
    (hmoved : ¬ (d.position = c.position ∧ d.atEnd = false)) : d.left < c.left := by
  refine h.left_lt hbyte fun hdc => hmoved ?_
  subst hdc
  refine ⟨rfl, ?_⟩
  cases hcur : d.current with
  | none => exact absurd hcur hbyte
  | some b => simp [atEnd, hcur]

end ByteTokenizer.Cursor
