/-
  THE TOKENIZER: an alphabet, and a list of rules for each category.

  When a byte opens a category, the rules of that category are dispatched: all of them, in the
  order of their registration, each from where the one before has left the cursor, and each
  giving one token.  The categories with an opening marker have it stepped over first.  The lists
  of different categories know nothing of each other.
-/
import ByteTokenizer.Alphabet
import ByteTokenizer.Registry
import ByteTokenizer.Rule.Shape

namespace ByteTokenizer

/-- An alphabet with the rules of each category. -/
structure Tokenizer where
  alphabet : Alphabet
  rules : Registry Rule := .empty

namespace Tokenizer

/-- The tokenizer whose rules are patterns. -/
def ofPatterns (alphabet : Alphabet) (patterns : Category → List Pattern) : Tokenizer where
  alphabet := alphabet
  rules category := (patterns category).map Pattern.rule

/-- The number of rules of a category. -/
def ruleCount (t : Tokenizer) (category : Category) : Nat := (t.rules category).length

/-! ## Dispatching a category -/

/-- Every rule of the list in turn, each giving its token. -/
def applyAll : List Rule → Scan (List Token)
  | [] => return []
  | rule :: rules => do
    let token ← rule
    let tokens ← applyAll rules
    return token :: tokens

/-- Steps over the marker, if the category has one, and applies the category's rules. -/
def dispatch (t : Tokenizer) (category : Category) : Scan (List Token) := do
  if category.hasMarker then
    Scan.advance
  applyAll (t.rules category)

/-- Every rule gives one token. -/
theorem length_applyAll (rules : List Rule) (c : Cursor) :
    ((applyAll rules).run c).1.length = rules.length := by
  induction rules generalizing c with
  | nil => rfl
  | cons rule rules ih => exact congrArg (· + 1) (ih (rule.run c).2)

/-- A dispatch gives as many tokens as the category has rules. -/
theorem length_dispatch (t : Tokenizer) (category : Category) (c : Cursor) :
    ((t.dispatch category).run c).1.length = t.ruleCount category := by
  unfold dispatch
  split
  · exact length_applyAll _ c.advance
  · exact length_applyAll _ c

end Tokenizer

end ByteTokenizer
