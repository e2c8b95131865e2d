/-
  DOCUMENTS: values as they are kept in a configuration file.

  A document is null, a truth value, a number, a text, a list of documents or an object with
  named members.  A number is the decimal that was written: `number m e` is m divided by the
  e-th power of ten, so a number written with a fraction is not an integer even when the fraction
  is zero.  The order of an object's members has no meaning, and their names are distinct.
-/
import ByteTokenizer.Byte

namespace ByteTokenizer

/-- A value in a configuration file. -/
inductive Document where
  | null
  | bool (value : Bool)
  /-- The decimal `mantissa / 10 ^ places`. -/
  | number (mantissa : Int) (places : Nat)
  | text (value : String)
  | array (items : List Document)
  | object (members : List (String × Document))

namespace Document

instance : Inhabited Document := ⟨null⟩

/-- An integer as a number. -/
def ofNat (n : Nat) : Document := number n 0

/-- A byte as a number. -/
def ofByte (b : Byte) : Document := ofNat b.toNat

/-- A number without a fraction from 0 to 255 is a byte, and nothing else is. -/
def byte? : Document → Option Byte
  | number mantissa 0 =>
    if 0 ≤ mantissa ∧ mantissa ≤ 255 then some (UInt8.ofNat mantissa.toNat) else none
  | _ => none

/-- The bytes of a list, if every item is a byte. -/
def bytes? : List Document → Option (List Byte)
  | [] => some []
  | item :: items => do
    let b ← byte? item
    let bs ← bytes? items
    return b :: bs

/-- The member of an object with the given name. -/
def member? (members : List (String × Document)) (name : String) : Option Document :=
  members.lookup name

theorem byte?_ofByte (b : Byte) : byte? (ofByte b) = some b := by
  have hb : b.toNat < 256 := b.toNat_lt
  have hint : 0 ≤ (b.toNat : Int) ∧ (b.toNat : Int) ≤ 255 := by omega
  simp [ofByte, ofNat, byte?, hint.2]

theorem bytes?_map_ofByte (bs : List Byte) : bytes? (bs.map ofByte) = some bs := by
  induction bs with
  | nil => rfl
  | cons b bs ih => simp [bytes?, byte?_ofByte, ih]

end Document

end ByteTokenizer
