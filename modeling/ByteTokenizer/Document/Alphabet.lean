/-
  ALPHABETS IN DOCUMENTS: how the seven tests are kept in a configuration file.

  An alphabet is an object with a member for each test, or the bare list of the seven tests in
  their order.  A test that is left out accepts nothing: any member of the object may be missing,
  and the list may stop early.  Members with other names are passed over whatever they hold, but
  a test that is there must be readable, and the list must not be longer than seven.
-/
import ByteTokenizer.Alphabet
import ByteTokenizer.Document.ByteClass

namespace ByteTokenizer.Alphabet

/-- The alphabet as a document. -/
def toDocument (a : Alphabet) : Document :=
  .object
    [("numbers", a.numbers.toDocument), ("chars", a.letters.toDocument),
      ("string", a.quotes.toDocument), ("delimiter", a.delimiters.toDocument),
      ("ignore", a.ignored.toDocument), ("comment", a.comments.toDocument),
      ("plain_chars", a.extraLetters.toDocument)]

/-- A range that may be missing. -/
def range? : Option Document → Option Range
  | none => some .never
  | some document => Range.ofDocument? document

/-- A point set that may be missing. -/
def points? : Option Document → Option Points
  | none => some .never
  | some document => Points.ofDocument? document

/-- The alphabet made of seven tests, each of which may be missing. -/
def ofTests? (numbers letters quotes delimiters ignored comments extraLetters : Option Document) :
    Option Alphabet := do
  let numbers ← range? numbers
  let letters ← range? letters
  let quotes ← points? quotes
  let delimiters ← points? delimiters
  let ignored ← points? ignored
  let comments ← points? comments
  let extraLetters ← points? extraLetters
  return { numbers, letters, quotes, delimiters, ignored, comments, extraLetters }

/-- The alphabet that a document stands for. -/
def ofDocument? : Document → Option Alphabet
  | .object members =>
    let test := Document.member? members
    ofTests? (test "numbers") (test "chars") (test "string") (test "delimiter") (test "ignore")
      (test "comment") (test "plain_chars")
  | .array items =>
    if items.length ≤ 7 then
      ofTests? items[0]? items[1]? items[2]? items[3]? items[4]? items[5]? items[6]?
    else none
  | _ => none

/-- What was written is read back. -/
theorem ofDocument?_toDocument (a : Alphabet) : ofDocument? a.toDocument = some a := by
  simp [toDocument, ofDocument?, Document.member?, List.lookup_cons, ofTests?, range?, points?,
    Range.ofDocument?_toDocument, Points.ofDocument?_toDocument]

end ByteTokenizer.Alphabet
