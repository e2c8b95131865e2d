/-
  SESSIONS: one tokenizer used again and again.

  A session is a list of requests to one tokenizer, which has no rules to begin with.  A rule can
  be registered by naming its category or by the method of the category.  A tokenization changes
  neither the alphabet nor the rules, whether it succeeds or fails; but the rules may remember
  it, and what they remember is there for the next one.
-/
import ByteTokenizer.Tokenizer.Event
import ByteTokenizer.Tokenizer.Mindful

namespace ByteTokenizer

variable {σ : Type}

namespace Mindful

/-- The number of rules of each category, with the category's written name. -/
def counts (t : Mindful σ) : List (String × String) :=
  Category.all.map fun category => (category.record, toString (t.rules.count category))

/-- The tokenizer written out on one line. -/
def record (t : Mindful σ) : String :=
  Text.mapping t.counts ++ " " ++ t.alphabet.record

/-- The tokenizer written out with a line for each category. -/
def recordLines (t : Mindful σ) : String :=
  Text.mappingLines t.counts ++ " " ++ t.alphabet.record

end Mindful

/-- A tokenizer in use, and what its rules remember. -/
structure Session (σ : Type) extends Mindful σ where
  memory : σ

namespace Session

/-- A new tokenizer. -/
def new (alphabet : Alphabet) (memory : σ) : Session σ := { alphabet, memory }

/-- What is asked of a tokenizer. -/
inductive Request (σ : Type) where
  /-- Register the rule for the category. -/
  | addRule (category : Category) (rule : MindfulRule σ)
  /-- Register the rule for numbers. -/
  | lexNumber (rule : MindfulRule σ)
  /-- Register the rule for strings. -/
  | lexString (rule : MindfulRule σ)
  /-- Register the rule for identifiers. -/
  | lexIdentifier (rule : MindfulRule σ)
  /-- Register the rule for delimiters. -/
  | lexDelimiter (rule : MindfulRule σ)
  /-- Register the rule for comments. -/
  | lexComment (rule : MindfulRule σ)
  /-- Tokenize a content that may be absent. -/
  | tokenize (content : Option (List Byte))
  /-- Write the tokenizer out. -/
  | describe
  /-- Show the alphabet. -/
  | showAlphabet

/-- What a tokenizer replies. -/
inductive Reply where
  /-- How many rules each category has now. -/
  | registered (count : Category → Nat)
  /-- The tokens or the failure, and the account of the work. -/
  | tokenized (result : Except Failure (List Token)) (events : List Event)
  /-- The tokenizer on one line and on several. -/
  | described (line lines : String)
  /-- The alphabet in use. -/
  | alphabet (alphabet : Alphabet)

/-- The session goes on with these rules, and the reply gives their numbers. -/
def withRules (S : Session σ) (rules : Registry (MindfulRule σ)) : Reply × Session σ :=
  (.registered rules.count, { S with rules })

/-- The reply to a request, and the session after it. -/
def handle (S : Session σ) : Request σ → Reply × Session σ
  | .addRule category rule => S.withRules (S.rules.addRule category rule)
  | .lexNumber rule => S.withRules (S.rules.lexNumber rule)
  | .lexString rule => S.withRules (S.rules.lexString rule)
  | .lexIdentifier rule => S.withRules (S.rules.lexIdentifier rule)
  | .lexDelimiter rule => S.withRules (S.rules.lexDelimiter rule)
  | .lexComment rule => S.withRules (S.rules.lexComment rule)
  | .tokenize none => (.tokenized (.error .absentContent) [], S)
  | .tokenize (some content) =>
    let (r, memory) := S.run S.memory content
    (.tokenized r.result (r.events content.length), { S with memory })
  | .describe => (.described S.record S.recordLines, S)
  | .showAlphabet => (.alphabet S.alphabet, S)

/-- The replies to a list of requests, made one after the other. -/
def replies (S : Session σ) : List (Request σ) → List Reply
  | [] => []
  | request :: requests => (S.handle request).1 :: replies (S.handle request).2 requests

end Session

end ByteTokenizer
