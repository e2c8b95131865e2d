/-
  QUOTED TEXT: a text between double quotes, on one line and without doubt about its ends.

  The quote and the backslash get a backslash before them; NUL, tab, line feed and carriage
  return are a backslash and a letter or digit; every other character that would not show is its
  code in hexadecimal between braces.  All else stands for itself, the apostrophe included.
-/
import ByteTokenizer.Text.Printable

namespace ByteTokenizer.Text

/-- One character inside the quotes. -/
def quotedChar (c : Char) : List Char :=
  if c = '\x00' then ['\\', '0']
  else if c = '\t' then ['\\', 't']
  else if c = '\n' then ['\\', 'n']
  else if c = '\r' then ['\\', 'r']
  else if c = '"' then ['\\', '"']
  else if c = '\\' then ['\\', '\\']
  else if isPrinted c then [c]
  else ['\\', 'u', '\x7b'] ++ Nat.toDigits 16 c.toNat ++ ['\x7d']

/-- The text between quotes. -/
def quoted (text : String) : String :=
  String.ofList ('"' :: text.toList.flatMap quotedChar ++ ['"'])

example : quotedChar '"' = ['\\', '"'] ∧ quotedChar 'a' = ['a'] ∧ quotedChar '\x7f'
    = ['\\', 'u', '\x7b', '7', 'f', '\x7d'] := by
  decide +kernel

end ByteTokenizer.Text
