/-
  LEXEMES: what the small language takes at a byte that opens a token.

  `Lexeme used token left` says, without any cursor, that the bytes `used` in front of `left` are
  read as the token.  Numbers and words end where a byte comes that cannot go on, comments in
  front of the line feed, and strings with their closing quote or with the source.

  1. The bytes that open a category are told apart by plain tests (`opens`), and the alphabet's
     priorities never come into play (`classify_eq_opens_iff`).

  2. Every source that begins with such a byte begins with a lexeme (`exists_lexeme`).

  3. The rules of the language take just that lexeme (`Lexeme.turnsTo`), so a turn at a lexeme
     always leads onward and gives the one token.
-/
import ByteTokenizer.Program.Language
import ByteTokenizer.Proofs.Rule.Delimited
import ByteTokenizer.Proofs.Rule.Parts

namespace ByteTokenizer

open Cursor (between)

namespace Program.Language

/-! ## The bytes of the language -/

/-- The double quote, at both ends of a string. -/
def quote : Byte := 0x22

/-- The hash, at the beginning of a comment. -/
def hash : Byte := 0x23

/-- The backslash, which keeps the byte behind it in a string. -/
def backslash : Byte := 0x5c

/-- The digits from 0 to 9. -/
def isDigit (b : Byte) : Bool := decide (0x30 ≤ b ∧ b ≤ 0x39)

/-- The letters from A to Z and from a to z, and the underscore. -/
def isLetter (b : Byte) : Bool :=
  decide (0x41 ≤ b ∧ b ≤ 0x5a) || decide (0x61 ≤ b ∧ b ≤ 0x7a) || b == 0x5f

/-- Parentheses, braces, comma, semicolon, equals sign, plus, minus, star and slash. -/
def isSign (b : Byte) : Bool :=
  [0x28, 0x29, 0x7b, 0x7d, 0x2c, 0x3b, 0x3d, 0x2b, 0x2d, 0x2a, 0x2f].contains b

/-- Space, tab, carriage return and line feed. -/
def isBlank (b : Byte) : Bool := [0x20, 0x09, 0x0d, 0x0a].contains b

/-- The bytes that open a token of the category. -/
def opens : Category → Byte → Bool
  | .number => isDigit
  | .string => (· == quote)
  | .identifier => isLetter
  | .delimiter => isSign
  | .comment => (· == hash)

/-- The alphabet, byte by byte: no two tests of it accept the same byte, so their order does not
    matter. -/
theorem classify_iff (b : Byte) :
    (alphabet.classify b = some .ignored ↔ isBlank b = true)
      ∧ ∀ category ∈ Category.all,
        (alphabet.classify b = some (.opens category) ↔ opens category b = true) := by
  revert b
  exact Byte.forall_of_all (by decide +kernel)

/-- A byte stands between tokens exactly if it is a blank. -/
theorem classify_eq_ignored_iff (b : Byte) :
    alphabet.classify b = some .ignored ↔ isBlank b = true :=
  (classify_iff b).1

/-- A byte opens a category exactly if it is one of the category's bytes. -/
theorem classify_eq_opens_iff (category : Category) (b : Byte) :
    alphabet.classify b = some (.opens category) ↔ opens category b = true :=
  (classify_iff b).2 category (by cases category <;> decide)

/-- A word goes on with letters, underscores and digits. -/
theorem isWordByte_eq (b : Byte) : isWordByte b = (isLetter b || isDigit b) := by
  revert b
  exact Byte.forall_of_all (by decide +kernel)

/-- All bytes of a word are bytes that a word goes on with. -/
theorem forall_isWordByte {first : Byte} {more : List Byte} (hfirst : isLetter first = true)
    (hmore : ∀ b ∈ more, isWordByte b = true) : ∀ b ∈ first :: more, isWordByte b = true := by
  have hfirst' : isWordByte first = true := by
    rw [isWordByte_eq, hfirst, Bool.true_or]
  exact List.forall_mem_cons.2 ⟨hfirst', hmore⟩

/-- A string is closed by the quote and nothing else. -/
theorem accepts_quote : (Points.listed [quote]).accepts = (· == quote) := by
  funext b
  rw [Points.accepts_listed, List.contains_cons, List.contains_nil, Bool.or_false]

/-! ## Lexemes -/

/-- The body of a string: a backslash keeps the byte behind it, and no other quote is in it. -/
def StringBody : List Byte → Prop := Units (· == quote) (some backslash)

/-- In front of `left`, the bytes `used` are read as the token. -/
inductive Lexeme : (used : List Byte) → (token : Token) → (left : List Byte) → Prop where
  | number {first : Byte} {more left : List Byte} (hfirst : isDigit first = true)
      (hmore : ∀ b ∈ more, isDigit b = true) (hstop : ∀ b ∈ left.head?, isDigit b = false) :
      Lexeme (first :: more) ⟨.number, first :: more⟩ left
  | word {first : Byte} {more left : List Byte} (hfirst : isLetter first = true)
      (hmore : ∀ b ∈ more, isWordByte b = true) (hstop : ∀ b ∈ left.head?, isWordByte b = false) :
      Lexeme (first :: more) ⟨wordKind (first :: more), first :: more⟩ left
  | delimiter {b : Byte} (left : List Byte) (hsign : isSign b = true) :
      Lexeme [b] ⟨.delimiter, [b]⟩ left
  /-- The rest of a line, without its line feed. -/
  | comment {body left : List Byte} (hbody : Byte.lineFeed ∉ body)
      (hstop : ∀ b ∈ left.head?, b = Byte.lineFeed) :
      Lexeme (hash :: body) ⟨.comment, body⟩ left
  /-- A string with its closing quote. -/
  | string {body : List Byte} (left : List Byte) (hbody : StringBody body) :
      Lexeme (quote :: (body ++ [quote])) ⟨.string, body⟩ left
  /-- A string that ends with the source. -/
  | unclosed {body : List Byte} (hbody : StringBody body) :
      Lexeme (quote :: body) ⟨.string, body⟩ []
  /-- A string that ends with the source in the middle of a pair. -/
  | cut {body : List Byte} (hbody : StringBody body) :
      Lexeme (quote :: (body ++ [backslash])) ⟨.string, body ++ [backslash]⟩ []

/-- Where a byte opens a category, there is a lexeme. -/
theorem exists_lexeme {category : Category} {first : Byte} (hfirst : opens category first = true)
    (rest : List Byte) :
    ∃ used token left, first :: rest = used ++ left ∧ used ≠ [] ∧ Lexeme used token left := by
  cases category with
  | number =>
    obtain ⟨more, left, rfl, hmore, hstop⟩ := exists_accepted_run isDigit rest
    exact ⟨_, _, left, rfl, List.cons_ne_nil _ _, .number hfirst hmore hstop⟩
  | identifier =>
    obtain ⟨more, left, rfl, hmore, hstop⟩ := exists_accepted_run isWordByte rest
    exact ⟨_, _, left, rfl, List.cons_ne_nil _ _, .word hfirst hmore hstop⟩
  | delimiter => exact ⟨[first], _, rest, rfl, List.cons_ne_nil _ _, .delimiter rest hfirst⟩
  | comment =>
    obtain rfl : first = hash := beq_iff_eq.1 hfirst
    obtain ⟨body, left, rfl, hbody, hstop⟩ :=
      exists_accepted_run (fun b => decide (b ≠ Byte.lineFeed)) rest
    have hbody' : Byte.lineFeed ∉ body := fun hmem => of_decide_eq_true (hbody _ hmem) rfl
    have hstop' : ∀ b ∈ left.head?, b = Byte.lineFeed := by
      intro b hb
      simpa using hstop b hb
    exact ⟨_, _, left, rfl, List.cons_ne_nil _ _, .comment hbody' hstop'⟩
  | string =>
    obtain rfl : first = quote := beq_iff_eq.1 hfirst
    rcases delimited_grammar (· == quote) (some backslash) rest with
      ⟨left, hbody, hclose⟩ | hbody | ⟨hbody, -, hescape⟩
    · obtain rfl := beq_iff_eq.1 hclose
      exact ⟨_, _, left, by simp, List.cons_ne_nil _ _, .string left hbody⟩
    · exact ⟨_, _, [], (List.append_nil _).symm, List.cons_ne_nil _ _, .unclosed hbody⟩
    · obtain rfl := Option.some.inj hescape
      exact ⟨_, _, [], (List.append_nil _).symm, List.cons_ne_nil _ _, .cut hbody⟩

/-! ## Reading a lexeme -/

/-- The rule for words takes a run of letters and digits. -/
theorem run_word {body left : List Byte} (hbody : ∀ b ∈ body, isWordByte b = true)
    (hstop : ∀ b ∈ left.head?, isWordByte b = false) (before : List Byte) :
    word.run (between before (body ++ left))
      = (⟨wordKind body, body⟩, between (before ++ body) left) := by
  have htake : (between before (body ++ left)).takeWhile isWordByte
      = (body, between (before ++ body) left) := by
    rw [Cursor.takeWhile, Cursor.ahead_between, takeWhile_append_of_stop hbody hstop,
      Cursor.advanceBy_between]
  rw [word, Scan.run_bind, Scan.run_takeWhile, htake, Scan.run_pure]

/-- A number is a run of digits. -/
theorem split_number {body left : List Byte} (hbody : ∀ b ∈ body, isDigit b = true)
    (hstop : ∀ b ∈ left.head?, isDigit b = false) :
    (Shape.rangeRun .digits .never).split (body ++ left) = { body } := by
  have htest : Range.digits.accepts = isDigit := by
    funext b
    rw [Range.digits, Range.accepts_interval, isDigit, Bool.decide_and]
  exact Shape.split_append_of_run? (htest ▸ Shape.run?_rangeRun_never .digits) hbody hstop

/-- A comment is the rest of the line. -/
theorem split_comment {body left : List Byte} (hbody : Byte.lineFeed ∉ body)
    (hstop : ∀ b ∈ left.head?, b = Byte.lineFeed) :
    Shape.line.split (body ++ left) = { body } := by
  have hbody' : ∀ b ∈ body, decide (b ≠ Byte.lineFeed) = true := by
    intro b hb
    exact decide_eq_true fun heq => hbody (heq ▸ hb)
  have hstop' : ∀ b ∈ left.head?, decide (b ≠ Byte.lineFeed) = false := by
    intro b hb
    exact decide_eq_false fun hne => hne (hstop b hb)
  rw [Shape.split, takeWhile_append_of_stop hbody' hstop']

/-- The shape of strings, in terms of the grammar of their bodies. -/
theorem split_string (ahead : List Byte) :
    (Shape.delimited (.listed [quote]) (some backslash)).split ahead
      = Split.delimited (· == quote) (some backslash) false ahead := by
  rw [Shape.split, accepts_quote]

/-- Without a marker, a dispatch is the one rule of the category. -/
theorem run_dispatch_unmarked {category : Category} (hmarker : category.hasMarker = false)
    {before ahead used left : List Byte} {token : Token}
    (hrule : (rule category).run (between before ahead) = (token, between (before ++ used) left)) :
    (tokenizer.dispatch category).run (between before ahead)
      = ([token], between (before ++ used) left) := by
  refine Tokenizer.run_dispatch_of_rules (rules_tokenizer category) ?_
  rw [hmarker, if_neg Bool.false_ne_true]
  exact hrule

/-- With a marker, it is the one rule from behind that. -/
theorem run_dispatch_marked {category : Category} (hmarker : category.hasMarker = true)
    {before ahead used left : List Byte} {first : Byte} {token : Token}
    (hrule : (rule category).run (between (before ++ [first]) ahead)
      = (token, between (before ++ [first] ++ used) left)) :
    (tokenizer.dispatch category).run (between before (first :: ahead))
      = ([token], between (before ++ first :: used) left) := by
  refine Tokenizer.run_dispatch_of_rules (rules_tokenizer category) ?_
  rw [hmarker, if_pos rfl, Cursor.advance_between_cons, hrule, List.append_assoc]
  rfl

/-- The dispatch at the first byte of a lexeme takes the lexeme. -/
theorem Lexeme.run_dispatch {used left : List Byte} {token : Token} (h : Lexeme used token left)
    (before : List Byte) :
    ∃ category first more, used = first :: more ∧ opens category first = true
      ∧ (tokenizer.dispatch category).run (between before (used ++ left))
        = ([token], between (before ++ used) left) := by
  cases h with
  | @number first more _ hfirst hmore hstop =>
    have hall : ∀ b ∈ first :: more, isDigit b = true := List.forall_mem_cons.2 ⟨hfirst, hmore⟩
    have hrule : (rule .number).run (between before (first :: more ++ left)) = _ :=
      Pattern.run_rule_bare (split_number hall hstop) before
    exact ⟨.number, first, more, rfl, hfirst, run_dispatch_unmarked rfl hrule⟩
  | @word first more _ hfirst hmore hstop =>
    have hrule : (rule .identifier).run (between before (first :: more ++ left)) = _ :=
      run_word (forall_isWordByte hfirst hmore) hstop before
    exact ⟨.identifier, first, more, rfl, hfirst, run_dispatch_unmarked rfl hrule⟩
  | @delimiter b _ hsign =>
    have hrule : (rule .delimiter).run (between before ([b] ++ left)) = _ :=
      Pattern.run_rule_bare rfl before
    exact ⟨.delimiter, b, [], rfl, hsign, run_dispatch_unmarked rfl hrule⟩
  | @comment body _ hbody hstop =>
    have hrule : (rule .comment).run (between (before ++ [hash]) (body ++ left)) = _ :=
      Pattern.run_rule_bare (split_comment hbody hstop) (before ++ [hash])
    exact ⟨.comment, hash, body, rfl, rfl, run_dispatch_marked rfl hrule⟩
  | @string body _ hbody =>
    have hsplit := (split_string (body ++ quote :: left)).trans
      (Split.delimited_closed hbody (beq_self_eq_true quote) left)
    have hrule : (rule .string).run (between (before ++ [quote]) (body ++ quote :: left)) = _ :=
      Pattern.run_rule_closed hsplit (before ++ [quote])
    refine ⟨.string, quote, body ++ [quote], rfl, rfl, ?_⟩
    rw [List.cons_append, List.append_assoc]
    exact run_dispatch_marked rfl hrule
  | @unclosed body hbody =>
    have hsplit : (Shape.delimited (.listed [quote]) (some backslash)).split (body ++ [])
        = { body } := by
      rw [List.append_nil, split_string, Split.delimited_unclosed hbody]
    have hrule : (rule .string).run (between (before ++ [quote]) (body ++ [])) = _ :=
      Pattern.run_rule_bare hsplit (before ++ [quote])
    exact ⟨.string, quote, body, rfl, rfl, run_dispatch_marked rfl hrule⟩
  | @cut body hbody =>
    have hsplit : (Shape.delimited (.listed [quote]) (some backslash)).split
        (body ++ [backslash] ++ []) = { body := body ++ [backslash] } := by
      rw [List.append_nil, split_string, Split.delimited_cut hbody rfl]
    have hrule : (rule .string).run (between (before ++ [quote]) (body ++ [backslash] ++ [])) = _ :=
      Pattern.run_rule_bare hsplit (before ++ [quote])
    exact ⟨.string, quote, body ++ [backslash], rfl, rfl, run_dispatch_marked rfl hrule⟩

/-- **A turn at a lexeme takes it.** -/
theorem Lexeme.turnsTo {used left : List Byte} {token : Token} (h : Lexeme used token left)
    (before : List Byte) :
    ∃ dispatch, dispatch.tokens = [token]
      ∧ tokenizer.TurnsTo before (used ++ left)
        (.onward (some dispatch) (between (before ++ used) left)) := by
  obtain ⟨category, first, more, rfl, hfirst, hrun⟩ := h.run_dispatch before
  have hclass := (classify_eq_opens_iff category first).2 hfirst
  exact ⟨tokenizer.dispatchAt before first category [token], rfl, .dispatched hclass rfl hrun⟩

end Program.Language

end ByteTokenizer
