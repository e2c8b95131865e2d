/-
  ALPHABETS: which class each byte belongs to.

  An alphabet has seven tests, and several may accept the same byte; `classify` asks them in a
  fixed order and the first that accepts decides: ignored bytes, numbers, opening quotes, letters
  of either sort, opening marks of comments, delimiters.  A byte that no test accepts has no
  class.  What is not set accepts nothing.
-/
import ByteTokenizer.ByteClass.Points
import ByteTokenizer.ByteClass.Range
import ByteTokenizer.Token

namespace ByteTokenizer

/-- The classes of the bytes of an input. -/
structure Alphabet where
  /-- Bytes that open a number. -/
  numbers : Range := .never
  /-- Bytes that open an identifier. -/
  letters : Range := .never
  /-- Bytes that mark the beginning of a string. -/
  quotes : Points := .never
  /-- Bytes that open a delimiter. -/
  delimiters : Points := .never
  /-- Bytes between tokens. -/
  ignored : Points := .never
  /-- Bytes that mark the beginning of a comment. -/
  comments : Points := .never
  /-- More bytes that open an identifier. -/
  extraLetters : Points := .never
deriving DecidableEq

/-- What a byte at the head of the input means. -/
inductive ByteMeaning where
  /-- It stands between tokens. -/
  | ignored
  /-- It opens a token of the category. -/
  | opens (category : Category)
deriving DecidableEq

namespace Alphabet

/-- An alphabet in which nothing is set. -/
instance : Inhabited Alphabet := ⟨{}⟩

/-- The meaning of a byte: the first test that accepts it decides. -/
def classify (a : Alphabet) (b : Byte) : Option ByteMeaning :=
  if a.ignored.accepts b then some .ignored
  else if a.numbers.accepts b then some (.opens .number)
  else if a.quotes.accepts b then some (.opens .string)
  else if a.letters.accepts b || a.extraLetters.accepts b then some (.opens .identifier)
  else if a.comments.accepts b then some (.opens .comment)
  else if a.delimiters.accepts b then some (.opens .delimiter)
  else none

/-- Whether one of the seven tests accepts the byte. -/
def mentions (a : Alphabet) (b : Byte) : Bool :=
  a.numbers.accepts b || a.letters.accepts b || a.quotes.accepts b || a.delimiters.accepts b
    || a.ignored.accepts b || a.comments.accepts b || a.extraLetters.accepts b

/-- A byte has a meaning as soon as one test accepts it. -/
theorem isSome_classify (a : Alphabet) (b : Byte) : (a.classify b).isSome = a.mentions b := by
  simp only [classify, mentions]
  cases a.ignored.accepts b <;> cases a.numbers.accepts b <;> cases a.quotes.accepts b <;>
    cases a.letters.accepts b <;> cases a.extraLetters.accepts b <;>
    cases a.comments.accepts b <;> cases a.delimiters.accepts b <;> rfl

/-- One test of an alphabet, given anew. -/
inductive Setting where
  | numbers (range : Range)
  | letters (range : Range)
  | quotes (points : Points)
  | delimiters (points : Points)
  | ignored (points : Points)
  | comments (points : Points)
  | extraLetters (points : Points)
deriving DecidableEq

/-- The alphabet with one test replaced. -/
def set (a : Alphabet) : Setting → Alphabet
  | .numbers range => { a with numbers := range }
  | .letters range => { a with letters := range }
  | .quotes points => { a with quotes := points }
  | .delimiters points => { a with delimiters := points }
  | .ignored points => { a with ignored := points }
  | .comments points => { a with comments := points }
  | .extraLetters points => { a with extraLetters := points }

/-- The alphabets that come about as the settings are made one after the other. -/
def history (a : Alphabet) : List Setting → List Alphabet
  | [] => []
  | setting :: rest => a.set setting :: (a.set setting).history rest

/-- The alphabet written out. -/
def record (a : Alphabet) : String :=
  Text.record "LexerSettings"
    [("numbers", a.numbers.record), ("chars", a.letters.record), ("string", a.quotes.record),
      ("delimiter", a.delimiters.record), ("ignore", a.ignored.record),
      ("comment", a.comments.record), ("plain_chars", a.extraLetters.record)]

end Alphabet

-- a blank that is also a delimiter is ignored
example : ({ ignored := .listed [0x20], delimiters := .listed [0x20] } : Alphabet).classify 0x20
    = some .ignored := by
  decide

end ByteTokenizer
