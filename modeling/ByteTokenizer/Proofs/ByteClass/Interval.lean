/-
  INTERVALS: every range is one interval.

  A byte lies in several intervals at once exactly if it is not below the greatest of their lower
  ends and not above the least of their upper ends.  A range, however its parts are nested, asks
  for all of its leaves, so it accepts the bytes between these two ends, or none if a leaf is
  `never` (`accepts_iff`).  Without any interval the ends are the first and the last byte.

  All else is read off this: a range can be replaced by a single interval or by a list of points,
  it has no gaps, and how its conjunctions are written makes no difference.
-/
import ByteTokenizer.ByteClass.Points
import ByteTokenizer.Proofs.ByteClass.Leaves

namespace ByteTokenizer

/-! ## Extreme bytes -/

/-- The greater of two bytes is their least upper bound. -/
instance : Std.LawfulOrderSup Byte where
  max_le_iff a b c := by
    show (if a ≤ b then b else a) ≤ c ↔ a ≤ c ∧ b ≤ c
    by_cases hab : a ≤ b
    · rw [if_pos hab]
      exact ⟨fun hbc => ⟨UInt8.le_trans hab hbc, hbc⟩, And.right⟩
    · rw [if_neg hab]
      have hba := (UInt8.le_total a b).resolve_left hab
      exact ⟨fun hac => ⟨hac, UInt8.le_trans hba hac⟩, And.left⟩

/-- A byte is not below the greatest of some bytes exactly if it is not below any of them. -/
theorem max?_getD_le_iff {bytes : List Byte} {b : Byte} :
    bytes.max?.getD 0x00 ≤ b ↔ ∀ x ∈ bytes, x ≤ b := by
  cases hmax : bytes.max? with
  | none =>
    obtain rfl := List.max?_eq_none_iff.1 hmax
    exact ⟨fun _ => List.forall_mem_nil _, fun _ => UInt8.zero_le⟩
  | some x => exact List.max?_le_iff hmax

/-- A byte is not above the least of some bytes exactly if it is not above any of them. -/
theorem le_min?_getD_iff {bytes : List Byte} {b : Byte} :
    b ≤ bytes.min?.getD 0xff ↔ ∀ x ∈ bytes, b ≤ x := by
  cases hmin : bytes.min? with
  | none =>
    obtain rfl := List.min?_eq_none_iff.1 hmin
    have hlast : b ≤ 0xff := UInt8.le_iff_toNat_le.2 (Nat.le_of_lt_succ b.toNat_lt)
    exact ⟨fun _ => List.forall_mem_nil _, fun _ => hlast⟩
  | some x => exact List.le_min?_iff hmin

namespace Range

/-! ## The ends of a range -/

/-- The lower end of a leaf that is an interval. -/
def Leaf.low? : Leaf → Option Byte
  | interval lo _ => some lo
  | never => none

/-- The upper end of a leaf that is an interval. -/
def Leaf.high? : Leaf → Option Byte
  | interval _ hi => some hi
  | never => none

/-- The greatest lower end of the intervals among the leaves; without any, the first byte. -/
def low (r : Range) : Byte := (r.leaves.filterMap Leaf.low?).max?.getD 0x00

/-- The least upper end of the intervals among the leaves; without any, the last byte. -/
def high (r : Range) : Byte := (r.leaves.filterMap Leaf.high?).min?.getD 0xff

/-- A leaf accepts the bytes from its lower to its upper end. -/
theorem Leaf.accepts_range_iff (leaf : Leaf) (b : Byte) :
    leaf.range.accepts b = true
      ↔ leaf ≠ .never ∧ (∀ lo, leaf.low? = some lo → lo ≤ b)
        ∧ ∀ hi, leaf.high? = some hi → b ≤ hi := by
  cases leaf with
  | interval lo hi => simp [range, accepts_interval, low?, high?]
  | never => simp [range, accepts_never]

/-- **The ends decide.**  A range accepts the bytes between its ends, if no leaf is `never`. -/
theorem accepts_iff (r : Range) (b : Byte) :
    r.accepts b = true ↔ .never ∉ r.leaves ∧ r.low ≤ b ∧ b ≤ r.high := by
  rw [low, high, max?_getD_le_iff, le_min?_getD_iff, List.forall_mem_filterMap,
    List.forall_mem_filterMap, accepts_iff_leaves]
  constructor
  · intro h
    refine ⟨fun hnever => ?_, fun leaf hmem => ?_, fun leaf hmem => ?_⟩
    · exact ((Leaf.never.accepts_range_iff b).1 (h _ hnever)).1 rfl
    · exact ((leaf.accepts_range_iff b).1 (h leaf hmem)).2.1
    · exact ((leaf.accepts_range_iff b).1 (h leaf hmem)).2.2
  · rintro ⟨hnever, hlow, hhigh⟩ leaf hmem
    exact (leaf.accepts_range_iff b).2
      ⟨fun heq => hnever (heq ▸ hmem), hlow leaf hmem, hhigh leaf hmem⟩

/-! ## What a range can be replaced by -/

/-- The range without conjunctions. -/
def collapsed (r : Range) : Range :=
  if .never ∈ r.leaves then never else interval r.low r.high

/-- The range as a list of points. -/
def points (r : Range) : Points :=
  if .never ∈ r.leaves then .never else .ofInterval r.low r.high

theorem accepts_collapsed (r : Range) (b : Byte) : r.collapsed.accepts b = r.accepts b := by
  rw [Bool.eq_iff_iff, accepts_iff r, collapsed]
  by_cases hnever : .never ∈ r.leaves
  · rw [if_pos hnever, accepts_never]
    exact ⟨nofun, fun h => absurd hnever h.1⟩
  · rw [if_neg hnever, accepts_interval, Bool.and_eq_true, decide_eq_true_iff, decide_eq_true_iff]
    exact (and_iff_right hnever).symm

theorem accepts_points (r : Range) (b : Byte) : r.points.accepts b = r.accepts b := by
  rw [← accepts_collapsed, points, collapsed]
  by_cases hnever : .never ∈ r.leaves
  · rw [if_pos hnever, if_pos hnever, accepts_never, Points.accepts_never]
  · rw [if_neg hnever, if_neg hnever, accepts_interval, Points.accepts_ofInterval]

/-- Between two accepted bytes there is no refused one. -/
theorem accepts_of_between {r : Range} {a b c : Byte} (hab : a ≤ b) (hbc : b ≤ c)
    (ha : r.accepts a = true) (hc : r.accepts c = true) : r.accepts b = true := by
  obtain ⟨hnever, hlow, -⟩ := (accepts_iff r a).1 ha
  obtain ⟨-, -, hhigh⟩ := (accepts_iff r c).1 hc
  exact (accepts_iff r b).2 ⟨hnever, UInt8.le_trans hlow hab, UInt8.le_trans hbc hhigh⟩

/-- How a range is one interval. -/
structure OneInterval (r : Range) : Prop where
  /-- If a leaf is `never`, nothing is accepted. -/
  accepts_eq_false : .never ∈ r.leaves → ∀ b, r.accepts b = false
  /-- Otherwise the bytes between the greatest lower and the least upper end are. -/
  accepts_iff : .never ∉ r.leaves → ∀ b, r.accepts b = true ↔ r.low ≤ b ∧ b ≤ r.high
  /-- The range can be replaced by a single interval, or by `never`. -/
  accepts_collapsed : ∀ b, r.collapsed.accepts b = r.accepts b
  /-- It can be replaced by the points of that interval, or by `never`. -/
  accepts_points : ∀ b, r.points.accepts b = r.accepts b
  /-- The order, the repetition and the nesting of parts make no difference. -/
  accepts_regrouped : ∀ s, Regrouped r s → ∀ b, s.accepts b = r.accepts b
  /-- There are no gaps. -/
  accepts_of_between : ∀ a b c, a ≤ b → b ≤ c → r.accepts a = true → r.accepts c = true →
    r.accepts b = true

/-- **Ranges are intervals.**  Whatever is nested in it, a range accepts the bytes of one interval,
    whose ends are those of its leaves. -/
theorem ranges_are_intervals (r : Range) : OneInterval r where
  accepts_eq_false hnever b :=
    Bool.eq_false_iff.2 fun haccepts => ((accepts_iff r b).1 haccepts).1 hnever
  accepts_iff hnever b := (accepts_iff r b).trans (and_iff_right hnever)
  accepts_collapsed := accepts_collapsed r
  accepts_points := accepts_points r
  accepts_regrouped _ hregrouped := hregrouped.accepts_eq
  accepts_of_between _ _ _ := accepts_of_between

/-- Two conjunctions, one of them empty, in front of an interval. -/
def nestedTwice : Range :=
  allOf [allOf [interval 0 100, interval 50 200], allOf [], interval 60 255]

/-- The same intervals in another order, one of them twice, with nothing nested. -/
def nestedTwiceFlat : Range :=
  allOf [interval 60 255, interval 50 200, interval 60 255, interval 0 100]

-- one deeper leaf that is `never` is enough to refuse all bytes
theorem ranges_are_intervals_nestedTwice :
    (∀ b, nestedTwice.accepts b = true ↔ 60 ≤ b ∧ b ≤ 100)
      ∧ (∀ b, nestedTwiceFlat.accepts b = nestedTwice.accepts b)
      ∧ nestedTwice.accepts 80 = true
      ∧ ∀ b, (allOf [nestedTwice, allOf [allOf [never]]]).accepts b = false := by
  have hnested := ranges_are_intervals nestedTwice
  have hregrouped : Regrouped nestedTwice nestedTwiceFlat := by
    refine regrouped_iff.2 fun leaf => ?_
    simp only [nestedTwice, nestedTwiceFlat, leaves, leavesOfAll]
    grind
  exact ⟨hnested.accepts_iff (by decide), hnested.accepts_regrouped _ hregrouped,
    hnested.accepts_of_between 60 80 100 (by decide) (by decide) (by decide) (by decide),
    (ranges_are_intervals _).accepts_eq_false (by decide)⟩

end Range

end ByteTokenizer
