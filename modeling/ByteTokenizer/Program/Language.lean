/-
  A SMALL LANGUAGE: a program that lists the tokens of a source text.

  The language has numbers, words, strings between double quotes, comments from `#` to the end
  of the line, and single-byte delimiters.  A backslash in a string keeps the byte behind it.  A
  word is letters, digits and underscores and does not begin with a digit; three words are
  keywords.  The listing is all or nothing: a source that cannot be read or tokenized gives a
  message and no token.
-/
import ByteTokenizer.Program.Outcome
import ByteTokenizer.Text.Quoted
import ByteTokenizer.Tokenizer.Run

namespace ByteTokenizer.Program

/-! ## Files -/

/-- Why a file could not be read. -/
inductive ReadFailure where
  /-- A name on the way leads to nothing. -/
  | notFound
  /-- The content does not come from the device. -/
  | inputOutput
  /-- The file stands for a device that is not there. -/
  | noDevice
  /-- The file is there but must not be read. -/
  | denied
  /-- The path goes on behind something that is not a directory. -/
  | notDirectory
  /-- The path leads to a directory. -/
  | isDirectory
  /-- A name or the whole path is over its limit. -/
  | nameTooLong
  /-- More links have been met than may be followed. -/
  | tooManyLinks
  /-- The content has no end, or none that there is room for. -/
  | outOfMemory
  /-- Any other cause, in the words of whoever has found it. -/
  | other (description : String)

/-- The failure as a reader is told it, with the number it has for the system. -/
def ReadFailure.message : ReadFailure → String
  | notFound => "No such file or directory (os error 2)"
  | inputOutput => "Input/output error (os error 5)"
  | noDevice => "No such device or address (os error 6)"
  | denied => "Permission denied (os error 13)"
  | notDirectory => "Not a directory (os error 20)"
  | isDirectory => "Is a directory (os error 21)"
  | nameTooLong => "File name too long (os error 36)"
  | tooManyLinks => "Too many levels of symbolic links (os error 40)"
  | outOfMemory => "out of memory"
  | other description => description

namespace Language

/-! ## The language -/

/-- The bytes that are tokens of their own. -/
def delimiters : List Byte :=
  Byte.ofChars ['(', ')', '\x7b', '\x7d', ',', ';', '=', '+', '-', '*', '/']

/-- The classes of the language's bytes. -/
def alphabet : Alphabet where
  numbers := .digits
  letters := .interval 0x61 0x7a
  extraLetters := (Points.listed [0x5f]).union (.ofInterval 0x41 0x5a)
  quotes := .listed [0x22]
  comments := .listed [0x23]
  delimiters := .listed delimiters
  ignored := .listed [0x20, 0x09, 0x0d, 0x0a]

/-- Bytes that a word consists of: ASCII letters, digits and the underscore. -/
def isWordByte (b : Byte) : Bool :=
  decide (0x30 ≤ b ∧ b ≤ 0x39) || decide (0x41 ≤ b ∧ b ≤ 0x5a) || decide (0x61 ≤ b ∧ b ≤ 0x7a)
    || b == 0x5f

/-- The words that are keywords. -/
def keywords : List (List Byte) :=
  [Byte.ofChars ['l', 'e', 't'], Byte.ofChars ['f', 'n'],
    Byte.ofChars ['r', 'e', 't', 'u', 'r', 'n']]

/-- The kind of a word. -/
def wordKind (word : List Byte) : Kind :=
  if keywords.contains word then .keyword else .identifier

/-- A word, which is a keyword or an identifier. -/
def word : Rule := do
  let value ← Scan.takeWhile isWordByte
  return { kind := wordKind value, value }

/-- The one rule of each category. -/
def rule : Category → Rule
  | .number => Pattern.rule { kind := .number, shape := .rangeRun .digits .never }
  | .string => Pattern.rule { kind := .string, shape := .delimited (.listed [0x22]) (some 0x5c) }
  | .identifier => word
  | .delimiter => Pattern.rule { kind := .delimiter, shape := .single }
  | .comment => Pattern.rule { kind := .comment, shape := .line }

/-- The tokenizer of the language. -/
def tokenizer : Tokenizer where
  alphabet := alphabet
  rules := Registry.empty
    |>.addRule .number (rule .number)
    |>.addRule .string (rule .string)
    |>.addRule .comment (rule .comment)
    |>.addRule .delimiter (rule .delimiter)
    |>.lexIdentifier (rule .identifier)

/-- Each category has got its one rule. -/
theorem rules_tokenizer (category : Category) : tokenizer.rules category = [rule category] := by
  cases category <;> rfl

/-! ## The program -/

/-- The source text that is listed if no file is named. -/
def sample : String :=
  "# compute a greeting\n"
    ++ "let count = 3;\n"
    ++ "fn greet(name) \x7b\n"
    ++ "    print(\"hello, \" + name);\n"
    ++ "\x7d\n"
    ++ "greet(\"world\"); # done\n"

/-- Where the source text comes from. -/
inductive Source where
  /-- No file is named. -/
  | sample
  /-- The bytes of the named file. -/
  | file (bytes : List Byte)
  /-- The named file cannot be read. -/
  | unreadable (path : String) (failure : ReadFailure)

/-- The source that comes from reading the file of the path. -/
def Source.ofRead (path : String) : Except ReadFailure (List Byte) → Source
  | .ok bytes => .file bytes
  | .error failure => .unreadable path failure

/-- The line of a token: its kind in a column of ten characters, and its text in quotes. -/
def line (token : Token) : String :=
  token.kind.display { width := 10 } ++ " " ++ Text.quoted (Text.Utf8.lossy token.value) ++ "\n"

/-- A line for each token, an empty line and the number of tokens. -/
def listing (tokens : List Token) : String :=
  String.join (tokens.map line) ++ "\n" ++ toString tokens.length ++ " tokens\n"

/-- Lists the tokens of the bytes. -/
def list (bytes : List Byte) : Outcome :=
  match tokenizer.tokenize bytes with
  | .ok tokens => .success (listing tokens)
  | .error failure => .failure ("error: " ++ failure.message)

/-- Lists the tokens of the source. -/
def run : Source → Outcome
  | .sample => list (Text.Utf8.encode sample)
  | .file bytes => list bytes
  | .unreadable path failure => .failure ("cannot read " ++ path ++ ": " ++ failure.message)

end Language

end ByteTokenizer.Program
