/-
  TOKENS: what a tokenizer makes of its input.

  A token is a kind and the bytes it covers; the bytes need not be text.  Kinds and categories
  are not the same: a category is one of the five classes of first bytes that rules can be
  registered for, while a rule is free in the kind it gives its tokens, and `keyword` is a kind
  that no category has.  The names of both obey padding; a token as a whole does not.
-/
import ByteTokenizer.Byte
import ByteTokenizer.Text.Padding
import ByteTokenizer.Text.Record
import ByteTokenizer.Text.Utf8

namespace ByteTokenizer

/-- The kind of a token. -/
inductive Kind where
  | number
  | string
  | identifier
  | keyword
  | delimiter
  | comment
deriving DecidableEq

namespace Kind

/-- The name a reader is told. -/
def name : Kind → String
  | number => "number"
  | string => "string"
  | identifier => "identifier"
  | keyword => "keyword"
  | delimiter => "delimiter"
  | comment => "comment"

/-- The kind written out. -/
def record : Kind → String
  | number => "Number"
  | string => "String"
  | identifier => "Identifier"
  | keyword => "Keyword"
  | delimiter => "Delimiter"
  | comment => "Comment"

/-- The name, fitted into a column. -/
def display (kind : Kind) (padding : Text.Padding) : String := padding.fit kind.name

end Kind

/-- A class of first bytes that rules can be registered for. -/
inductive Category where
  | number
  | string
  | identifier
  | delimiter
  | comment
deriving DecidableEq

namespace Category

/-- Every category once, in the order in which they are listed. -/
def all : List Category := [number, string, identifier, delimiter, comment]

/-- The kind that tokens of the category normally have. -/
def kind : Category → Kind
  | number => .number
  | string => .string
  | identifier => .identifier
  | delimiter => .delimiter
  | comment => .comment

/-- Whether the first byte only opens the token and is not part of it. -/
def hasMarker : Category → Bool
  | string | comment => true
  | number | identifier | delimiter => false

/-- The place of the category in the list of all. -/
def index (category : Category) : Nat := all.idxOf category

/-- The category's name, fitted into a column. -/
def display (category : Category) (padding : Text.Padding) : String :=
  category.kind.display padding

/-- The category's name. -/
def name (category : Category) : String := category.kind.name

/-- The category written out. -/
def record (category : Category) : String := category.kind.record

end Category

/-- Bytes of the input with a kind. -/
structure Token where
  /-- What the token is. -/
  kind : Kind
  /-- The bytes that it covers. -/
  value : List Byte
deriving DecidableEq

namespace Token

/-- The token's bytes as text, if they are text. -/
def text? (token : Token) : Option String := Text.Utf8.strict? token.value

/-- The kind and, in parentheses, the bytes as text. -/
def display (token : Token) : String :=
  token.kind.name ++ "(" ++ Text.Utf8.lossy token.value ++ ")"

/-- The token written out. -/
def record (token : Token) : String :=
  Text.record "Token"
    [("value", Text.bracketed (token.value.map fun b => toString b.toNat)),
      ("kind", token.kind.record)]

end Token

example : Category.all.map Category.index = [0, 1, 2, 3, 4] := by decide

end ByteTokenizer
