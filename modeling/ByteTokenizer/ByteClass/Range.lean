/-
  RANGES OF BYTES: the first of two ways to say which bytes belong to a class.

  A range is an inclusive interval, a conjunction of ranges, or the range that accepts nothing.
  The conjunction is an AND over its parts, so the empty one accepts every byte, and an interval
  whose ends are swapped accepts none.  Two ranges are equal when they are written alike, which
  is finer than accepting the same bytes.
-/
import ByteTokenizer.Byte
import ByteTokenizer.Text.Record

namespace ByteTokenizer

/-- A test on bytes built from intervals. -/
inductive Range where
  /-- The bytes from `lo` to `hi`, both included. -/
  | interval (lo hi : Byte)
  /-- The bytes that every part accepts. -/
  | allOf (parts : List Range)
  /-- No byte at all. -/
  | never

namespace Range

/-- Unless said otherwise, a range accepts nothing. -/
instance : Inhabited Range := ⟨never⟩

/-! ## Which bytes a range accepts -/

mutual

/-- Whether the range accepts the byte. -/
def accepts : Range → Byte → Bool
  | interval lo hi, b => decide (lo ≤ b) && decide (b ≤ hi)
  | allOf parts, b => allAccept parts b
  | never, _ => false

/-- Whether every range of the list accepts the byte. -/
def allAccept : List Range → Byte → Bool
  | [], _ => true
  | part :: parts, b => accepts part b && allAccept parts b

end

theorem accepts_interval (lo hi b : Byte) :
    (interval lo hi).accepts b = (decide (lo ≤ b) && decide (b ≤ hi)) := by
  simp [accepts]

theorem allAccept_eq_all (parts : List Range) (b : Byte) :
    allAccept parts b = parts.all (·.accepts b) := by
  induction parts with
  | nil => simp [allAccept]
  | cons part parts ih => simp [allAccept, ih]

/-- A conjunction accepts what all its parts accept. -/
theorem accepts_allOf (parts : List Range) (b : Byte) :
    (allOf parts).accepts b = parts.all (·.accepts b) := by
  rw [accepts, allAccept_eq_all]

theorem accepts_never (b : Byte) : never.accepts b = false := by
  simp [accepts]

/-! ## Equality of the written form -/

mutual

/-- Whether two ranges are written alike. -/
protected def decEq : (r s : Range) → Decidable (r = s)
  | interval lo hi, interval lo' hi' => decidable_of_iff (lo = lo' ∧ hi = hi') (by simp)
  | allOf parts, allOf parts' =>
    match Range.decEqList parts parts' with
    | isTrue h => isTrue (by rw [h])
    | isFalse h => isFalse (by simpa using h)
  | never, never => isTrue rfl
  | interval _ _, allOf _ => isFalse (by simp)
  | interval _ _, never => isFalse (by simp)
  | allOf _, interval _ _ => isFalse (by simp)
  | allOf _, never => isFalse (by simp)
  | never, interval _ _ => isFalse (by simp)
  | never, allOf _ => isFalse (by simp)

/-- Whether two lists of ranges are written alike. -/
protected def decEqList : (rs ss : List Range) → Decidable (rs = ss)
  | [], [] => isTrue rfl
  | [], _ :: _ => isFalse (by simp)
  | _ :: _, [] => isFalse (by simp)
  | r :: rs, s :: ss =>
    match Range.decEq r s, Range.decEqList rs ss with
    | isTrue h, isTrue h' => isTrue (by rw [h, h'])
    | isFalse h, _ => isFalse (by simp [h])
    | _, isFalse h' => isFalse (by simp [h'])

end

instance : DecidableEq Range := Range.decEq

/-! ## Record text -/

mutual

/-- The range written out. -/
def record : Range → String
  | interval lo hi => Text.record "Single" [("from", toString lo.toNat), ("to", toString hi.toNat)]
  | allOf parts => Text.applied "Compound" (Text.bracketed (records parts))
  | never => "Never"

/-- The ranges of a list written out. -/
def records : List Range → List String
  | [] => []
  | part :: parts => record part :: records parts

end

end Range

/-- The ASCII digits. -/
def Range.digits : Range := .interval 0x30 0x39

example : Range.digits.accepts 0x30 ∧ Range.digits.accepts 0x39 ∧ ¬ Range.digits.accepts 0x3a := by
  decide

example : (Range.allOf []).accepts 0xff ∧ ¬ (Range.allOf [.allOf [], .never]).accepts 0xff := by
  decide

end ByteTokenizer
