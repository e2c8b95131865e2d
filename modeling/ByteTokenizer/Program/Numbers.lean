/-
  NUMBERS: a program that lists the numbers of its argument.

  The argument consists of digits and blanks; each stretch of digits is a number.  The rule that
  reads a number is written by hand and looks at the cursor only through `char`, which gives 0
  where there is no byte.  No digit is 0, so the end of the input ends a number like any other
  byte that is no digit, and each digit it takes was really there.
-/
import ByteTokenizer.Program.Outcome
import ByteTokenizer.Tokenizer.Run

namespace ByteTokenizer.Program.Numbers

/-- What is read if there is no argument. -/
def sample : String := "001100 987654321 123 456 789"

/-- Digits open a number, blanks are ignored. -/
def alphabet : Alphabet where
  numbers := .digits
  ignored := .listed [0x20]

/-! ## The rule -/

/-- A cursor that shows a digit stands on a byte. -/
theorem current_ne_none_of_digit {c : Cursor} (h : Range.digits.accepts c.char = true) :
    c.current ≠ none := by
  intro hcur
  rw [Cursor.char, hcur] at h
  exact absurd h (by decide)

/-- The digits from the cursor on, and the cursor behind them. -/
def digitsFrom (c : Cursor) : List Byte × Cursor :=
  if h : Range.digits.accepts c.char = true then
    have : c.advance.left < c.left := Cursor.left_advance_lt (current_ne_none_of_digit h)
    let (digits, d) := digitsFrom c.advance
    (c.char :: digits, d)
  else ([], c)
termination_by c.left

theorem reaches_digitsFrom (c : Cursor) : c.Reaches (digitsFrom c).2 := by
  induction hleft : c.left using Nat.strongRecOn generalizing c with
  | ind n ih =>
    rw [digitsFrom]
    split
    · next h =>
      have hlt : c.advance.left < n :=
        hleft ▸ Cursor.left_advance_lt (current_ne_none_of_digit h)
      exact (Cursor.Reaches.advance c).trans (ih _ hlt c.advance rfl)
    · exact .refl c

/-- The digits from the cursor on. -/
def digits : Scan (List Byte) where
  run := digitsFrom
  forward := reaches_digitsFrom

/-- A number: the byte that opened it, and the digits behind that byte. -/
def rule : Rule := do
  let first ← Scan.look Cursor.char
  Scan.advance
  let rest ← digits
  return { kind := .number, value := first :: rest }

/-- The tokenizer of the program. -/
def tokenizer : Tokenizer where
  alphabet := alphabet
  rules := Registry.empty.lexNumber rule

/-! ## The program -/

/-- The lines of the listing, numbered from 0. -/
def listing (tokens : List Token) : String :=
  String.join (tokens.zipIdx.map fun (token, i) =>
    "  " ++ toString i ++ ": " ++ token.display ++ "\n")

/-- Lists the numbers of the argument, or of the sample if there is none. -/
def run (argument : Option String) : Outcome :=
  let input := argument.getD sample
  match tokenizer.tokenize (Text.Utf8.encode input) with
  | .ok tokens => .success ("Tokenizing: " ++ input ++ "\n\nTokens:\n" ++ listing tokens)
  | .error failure => .failure ("tokenize error: " ++ failure.message)

end ByteTokenizer.Program.Numbers
