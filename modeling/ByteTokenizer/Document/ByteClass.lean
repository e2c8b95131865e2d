/-
  BYTE CLASSES IN DOCUMENTS: how ranges and points are kept in a configuration file.

  A class is an object with one member, named for its form: `single` with the two ends of an
  interval, `compound` with the list of the parts, `points` with the list of the bytes.  The
  class that accepts nothing is the bare text `never`, or an object whose one member `never` is
  null.  Inside `single` unknown members are passed over; an object that has more than its one
  member is refused.
-/
import ByteTokenizer.ByteClass.Points
import ByteTokenizer.ByteClass.Range
import ByteTokenizer.Document

namespace ByteTokenizer

/-! ## Ranges -/

namespace Range

mutual

/-- The range as a document. -/
def toDocument : Range → Document
  | interval lo hi =>
    .object [("single", .object [("from", .ofByte lo), ("to", .ofByte hi)])]
  | allOf parts => .object [("compound", .array (toDocuments parts))]
  | never => .text "never"

/-- The ranges of a list as documents. -/
def toDocuments : List Range → List Document
  | [] => []
  | part :: parts => toDocument part :: toDocuments parts

end

/-- The interval that an object with its two ends stands for. -/
def ends? : Document → Option Range
  | .object members => do
    let lo ← (← Document.member? members "from").byte?
    let hi ← (← Document.member? members "to").byte?
    return interval lo hi
  | _ => none

mutual

/-- The range that a document stands for. -/
def ofDocument? : Document → Option Range
  | .text name => if name = "never" then some never else none
  | .object [(form, value)] =>
    if form = "never" then
      match value with
      | .null => some never
      | _ => none
    else if form = "single" then ends? value
    else if form = "compound" then
      match value with
      | .array parts => (ofDocuments? parts).map allOf
      | _ => none
    else none
  | _ => none

/-- The ranges that a list of documents stands for, if each of them stands for one. -/
def ofDocuments? : List Document → Option (List Range)
  | [] => some []
  | item :: items => do
    let part ← ofDocument? item
    let parts ← ofDocuments? items
    return part :: parts

end

theorem ends?_object (lo hi : Byte) :
    ends? (.object [("from", .ofByte lo), ("to", .ofByte hi)]) = some (interval lo hi) := by
  simp [ends?, Document.member?, List.lookup_cons, Document.byte?_ofByte]

mutual

/-- What was written is read back. -/
theorem ofDocument?_toDocument : (r : Range) → ofDocument? r.toDocument = some r
  | interval lo hi => by simp [toDocument, ofDocument?, ends?_object]
  | allOf parts => by simp [toDocument, ofDocument?, ofDocuments?_toDocuments parts]
  | never => by simp [toDocument, ofDocument?]

theorem ofDocuments?_toDocuments : (rs : List Range) → ofDocuments? (toDocuments rs) = some rs
  | [] => by simp [toDocuments, ofDocuments?]
  | part :: parts => by
    simp [toDocuments, ofDocuments?, ofDocument?_toDocument part, ofDocuments?_toDocuments parts]

end

end Range

/-! ## Points -/

namespace Points

/-- The point set as a document. -/
def toDocument : Points → Document
  | listed bytes => .object [("points", .array (bytes.map .ofByte))]
  | never => .text "never"

/-- The point set that a document stands for. -/
def ofDocument? : Document → Option Points
  | .text name => if name = "never" then some never else none
  | .object [(form, value)] =>
    if form = "never" then
      match value with
      | .null => some never
      | _ => none
    else if form = "points" then
      match value with
      | .array items => (Document.bytes? items).map listed
      | _ => none
    else none
  | _ => none

/-- What was written is read back. -/
theorem ofDocument?_toDocument (p : Points) : ofDocument? p.toDocument = some p := by
  cases p with
  | listed bytes => simp [toDocument, ofDocument?, Document.bytes?_map_ofByte]
  | never => rfl

end Points

end ByteTokenizer
