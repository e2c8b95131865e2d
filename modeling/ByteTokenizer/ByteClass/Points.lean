/-
  POINTS: the second way to say which bytes belong to a class, by listing them.

  Order and repetition in the list make no difference to what is accepted, but they are kept:
  like ranges, two point sets are equal when they are written alike.  `union` puts one list
  behind the other and is `never` only when both sides are, so an empty list and `never` stay
  apart although neither accepts a byte.
-/
import ByteTokenizer.Byte
import ByteTokenizer.Text.Record

namespace ByteTokenizer

/-- A test on bytes that lists what it accepts. -/
inductive Points where
  /-- The listed bytes. -/
  | listed (bytes : List Byte)
  /-- No byte at all. -/
  | never
deriving DecidableEq

namespace Points

/-- Unless said otherwise, a point set accepts nothing. -/
instance : Inhabited Points := ⟨never⟩

/-- Whether the byte is one of the points. -/
def accepts : Points → Byte → Bool
  | listed bytes, b => bytes.contains b
  | never, _ => false

/-- Every byte from `lo` to `hi`, listed in ascending order. -/
def ofInterval (lo hi : Byte) : Points :=
  listed ((List.range' lo.toNat (hi.toNat + 1 - lo.toNat)).map UInt8.ofNat)

/-- The points of both sides. -/
def union : Points → Points → Points
  | never, never => never
  | listed bytes, never => listed bytes
  | never, listed bytes => listed bytes
  | listed bytes, listed bytes' => listed (bytes ++ bytes')

theorem accepts_listed (bytes : List Byte) (b : Byte) :
    (listed bytes).accepts b = bytes.contains b := rfl

theorem accepts_never (b : Byte) : never.accepts b = false := rfl

/-- A union accepts what either side accepts. -/
theorem accepts_union (p q : Points) (b : Byte) :
    (p.union q).accepts b = (p.accepts b || q.accepts b) := by
  cases p <;> cases q <;> simp [union, accepts]

/-- The points of an interval are the bytes between its ends. -/
theorem accepts_ofInterval (lo hi b : Byte) :
    (ofInterval lo hi).accepts b = (decide (lo ≤ b) && decide (b ≤ hi)) := by
  have hlisted : b ∈ (List.range' lo.toNat (hi.toNat + 1 - lo.toNat)).map UInt8.ofNat
      ↔ lo ≤ b ∧ b ≤ hi := by
    rw [List.mem_map, UInt8.le_iff_toNat_le, UInt8.le_iff_toNat_le]
    constructor
    · rintro ⟨n, hn, rfl⟩
      obtain ⟨hlo, hhi⟩ := List.mem_range'_1.1 hn
      -- up to the upper end a number is that of a byte, also where that end is the last byte
      have hlast := hi.toNat_lt
      rw [UInt8.toNat_ofNat', Nat.mod_eq_of_lt (by omega)]
      omega
    · rintro ⟨hlo, hhi⟩
      exact ⟨b.toNat, List.mem_range'_1.2 (by omega), UInt8.ofNat_toNat⟩
  rw [ofInterval, accepts_listed, Bool.eq_iff_iff, List.contains_iff_mem, hlisted,
    Bool.and_eq_true, decide_eq_true_iff, decide_eq_true_iff]

/-- The point set written out. -/
def record : Points → String
  | listed bytes => Text.applied "Points" (Text.bracketed (bytes.map fun b => toString b.toNat))
  | never => "Never"

end Points

example : Points.ofInterval 0x61 0x63 = .listed [0x61, 0x62, 0x63]
    ∧ Points.ofInterval 0x63 0x61 = .listed [] := by
  decide

end ByteTokenizer
