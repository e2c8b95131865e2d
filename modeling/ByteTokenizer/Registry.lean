/-
  REGISTRIES: lists of rules, one list for each category.

  A rule that is added comes behind the others of its category; the lists of the other categories
  stay as they are.  The category is either named when the rule is added, or the rule is added by
  the method that stands for it.
-/
import ByteTokenizer.Token

namespace ByteTokenizer

/-- For each category its rules, in the order in which they were added. -/
abbrev Registry (ρ : Type) := Category → List ρ

namespace Registry

variable {ρ : Type}

/-- No rule for any category. -/
def empty : Registry ρ := fun _ => []

/-- The number of rules of a category. -/
def count (lists : Registry ρ) (category : Category) : Nat := (lists category).length

/-- Adds the rule behind the others of the category. -/
def addRule (lists : Registry ρ) (category : Category) (rule : ρ) : Registry ρ :=
  fun c => if c = category then lists c ++ [rule] else lists c

/-- Adds a rule for numbers. -/
def lexNumber (lists : Registry ρ) (rule : ρ) : Registry ρ := lists.addRule .number rule

/-- Adds a rule for strings. -/
def lexString (lists : Registry ρ) (rule : ρ) : Registry ρ := lists.addRule .string rule

/-- Adds a rule for identifiers. -/
def lexIdentifier (lists : Registry ρ) (rule : ρ) : Registry ρ := lists.addRule .identifier rule

/-- Adds a rule for delimiters. -/
def lexDelimiter (lists : Registry ρ) (rule : ρ) : Registry ρ := lists.addRule .delimiter rule

/-- Adds a rule for comments. -/
def lexComment (lists : Registry ρ) (rule : ρ) : Registry ρ := lists.addRule .comment rule

theorem addRule_same (lists : Registry ρ) (category : Category) (rule : ρ) :
    lists.addRule category rule category = lists category ++ [rule] :=
  if_pos rfl

theorem addRule_other (lists : Registry ρ) {category other : Category} (rule : ρ)
    (hne : other ≠ category) : lists.addRule category rule other = lists other :=
  if_neg hne

end Registry

end ByteTokenizer
