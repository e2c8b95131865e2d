/-
  THE AUTOMATON: the small language read byte by byte.

  The automaton has four modes and looks at one byte at a time.  It has no alphabet, no rules and
  no tokens: it only keeps track of whether it is inside a string or a comment.

  1. It gets over a lexeme (`Lexeme.path`), and on the way it moves from code into a string or a
     comment exactly if the token is one (`Tally`).  Behind the lexeme it need not be in code
     again: a comment ends in front of its line feed, and a string that nothing closes ends with
     the source (`Fits`).

  2. So it gets over whatever is read (`Reading.path`), and rejects the byte in front of which
     reading stops.

  3. Both go together in `tokenize_follows_automaton`.
-/
import ByteTokenizer.Proofs.Language.Reading

namespace ByteTokenizer.Program.Language

/-! ## The automaton -/

/-- Where the automaton is. -/
inductive Mode where
  | code
  | string
  /-- Behind a backslash in a string. -/
  | escape
  | comment
deriving DecidableEq

namespace Mode

/-- The move at a byte, if the byte is not rejected. -/
def step : Mode → Byte → Option Mode
  | code, b =>
    if b = quote then some string
    else if b = hash then some comment
    else if isLetter b || isDigit b || isSign b || isBlank b then some code
    else none
  | string, b =>
    if b = quote then some code else if b = backslash then some escape else some string
  | escape, _ => some string
  | comment, b => if b = Byte.lineFeed then some code else some comment

/-- The mode behind the bytes, if none of them is rejected. -/
def after : Mode → List Byte → Option Mode
  | m, [] => some m
  | m, b :: rest => (m.step b).bind (·.after rest)

/-- The moves over the bytes, up to the first one that is rejected. -/
def moves : Mode → List Byte → List (Mode × Mode)
  | _, [] => []
  | m, b :: rest =>
    match m.step b with
    | some next => (m, next) :: next.moves rest
    | none => []

/-- The automaton gets over the bytes before, and rejects the next one. -/
def Rejects (m : Mode) (before : List Byte) (b : Byte) : Prop :=
  ∃ mode, m.after before = some mode ∧ mode.step b = none

theorem after_append (m : Mode) (bytes rest : List Byte) :
    m.after (bytes ++ rest) = (m.after bytes).bind (·.after rest) := by
  induction bytes generalizing m with
  | nil => rfl
  | cons b bytes ih =>
    rw [List.cons_append, after, after]
    cases m.step b with
    | none => rfl
    | some next => exact ih next

/-- Behind a byte that it rejects, the automaton gets nowhere. -/
theorem Rejects.after_eq {m : Mode} {before : List Byte} {b : Byte} (h : m.Rejects before b)
    (rest : List Byte) : m.after (before ++ b :: rest) = none := by
  obtain ⟨mode, hbefore, hstep⟩ := h
  rw [after_append, hbefore, Option.bind_some, after, hstep, Option.bind_none]

/-- In code, every byte of a word, number or delimiter and every blank is passed. -/
theorem step_code_of_plain (b : Byte) :
    (isLetter b || isDigit b || isSign b || isBlank b) = true → code.step b = some code := by
  revert b
  exact Byte.forall_of_all (by decide +kernel)

/-- In code, a byte that the alphabet does not know is rejected. -/
theorem step_code_of_unknown {b : Byte} (hunknown : alphabet.classify b = none) :
    code.step b = none := by
  have hopens : ∀ category, opens category b = false := by
    intro category
    refine Bool.eq_false_iff.2 fun hb => ?_
    exact nomatch hunknown.symm.trans ((classify_eq_opens_iff category b).2 hb)
  have hblank : isBlank b = false := by
    refine Bool.eq_false_iff.2 fun hb => ?_
    exact nomatch hunknown.symm.trans ((classify_eq_ignored_iff b).2 hb)
  have hquote : b ≠ quote := beq_eq_false_iff_ne.1 (hopens .string)
  have hhash : b ≠ hash := beq_eq_false_iff_ne.1 (hopens .comment)
  have hletter : isLetter b = false := hopens .identifier
  have hdigit : isDigit b = false := hopens .number
  have hsign : isSign b = false := hopens .delimiter
  rw [step, if_neg hquote, if_neg hhash, hletter, hdigit, hsign, hblank]
  rfl

/-! ## Paths -/

/-- Over the bytes, the automaton goes from one mode to the other by the moves. -/
structure Path (first : Mode) (bytes : List Byte) (moves : List (Mode × Mode)) (last : Mode) :
    Prop where
  after_eq : first.after bytes = some last
  moves_eq : first.moves bytes = moves

variable {m mid last : Mode} {b : Byte} {bytes bytes' : List Byte}
  {moves moves' : List (Mode × Mode)}

theorem Path.nil (m : Mode) : Path m [] [] m := ⟨rfl, rfl⟩

theorem Path.cons (hstep : m.step b = some mid) (h : Path mid bytes moves last) :
    Path m (b :: bytes) ((m, mid) :: moves) last where
  after_eq := by
    rw [after, hstep]
    exact h.after_eq
  moves_eq := by
    rw [Mode.moves, hstep]
    exact congrArg ((m, mid) :: ·) h.moves_eq

theorem Path.append (h : Path m bytes moves mid) (h' : Path mid bytes' moves' last) :
    Path m (bytes ++ bytes') (moves ++ moves') last := by
  obtain ⟨hafter, rfl⟩ := h
  induction bytes generalizing m with
  | nil =>
    obtain rfl := Option.some.inj hafter
    exact h'
  | cons b bytes ih =>
    rw [after] at hafter
    obtain ⟨next, hstep, hrest⟩ := Option.bind_eq_some_iff.1 hafter
    rw [Mode.moves, hstep]
    exact .cons hstep (ih hrest)

/-- A mode that every byte keeps is kept by all of them. -/
theorem Path.stay (h : ∀ b ∈ bytes, m.step b = some m) :
    Path m bytes (List.replicate bytes.length (m, m)) m := by
  induction bytes with
  | nil => exact .nil m
  | cons b bytes ih =>
    have hb := h b List.mem_cons_self
    exact .cons hb (ih fun b' hb' => h b' (List.mem_cons_of_mem _ hb'))

end Mode

open Mode (Path)

/-! ## Lexemes -/

/-- There are as many moves from code into strings and comments as there are tokens of these
    kinds. -/
structure Tally (moves : List (Mode × Mode)) (tokens : List Token) : Prop where
  strings : moves.count (.code, .string) = tokens.countP (·.kind = .string)
  comments : moves.count (.code, .comment) = tokens.countP (·.kind = .comment)

theorem Tally.append {moves moves' : List (Mode × Mode)} {tokens tokens' : List Token}
    (h : Tally moves tokens) (h' : Tally moves' tokens') :
    Tally (moves ++ moves') (tokens ++ tokens') where
  strings := by rw [List.count_append, List.countP_append, h.strings, h'.strings]
  comments := by rw [List.count_append, List.countP_append, h.comments, h'.comments]

/-- Moves that stay in code enter nothing. -/
theorem Tally.stay (k : Nat) {token : Token} (hstring : token.kind ≠ .string)
    (hcomment : token.kind ≠ .comment) : Tally (List.replicate k (.code, .code)) [token] where
  strings := by simp [List.count_replicate, hstring]
  comments := by simp [List.count_replicate, hcomment]

/-- Moves that do not come through code enter nothing either. -/
theorem Tally.inside {moves : List (Mode × Mode)} (h : ∀ move ∈ moves, move.1 ≠ .code) :
    Tally moves [] where
  strings := List.count_eq_zero.2 fun hmem => h _ hmem rfl
  comments := List.count_eq_zero.2 fun hmem => h _ hmem rfl

/-- A string or a comment is entered once, by the first move. -/
theorem Tally.entered {move : Mode × Mode} {token : Token} {moves : List (Mode × Mode)}
    (henter : Tally [move] [token]) (h : ∀ move ∈ moves, move.1 ≠ .code) :
    Tally (move :: moves) [token] :=
  henter.append (.inside h)

/-- The automaton can be in the mode when a token has ended in front of the bytes. -/
inductive Fits : Mode → List Byte → Prop where
  | code (left : List Byte) : Fits .code left
  /-- A comment has ended, and its line feed comes next. -/
  | comment (rest : List Byte) : Fits .comment (Byte.lineFeed :: rest)
  /-- The source has ended. -/
  | ended (m : Mode) : Fits m []

/-- The body of a string leads from string to string, and never comes through code. -/
theorem StringBody.path {body : List Byte} (h : StringBody body) :
    ∃ moves, Path .string body moves .string ∧ ∀ move ∈ moves, move.1 ≠ .code := by
  induction h with
  | nil => exact ⟨[], .nil _, fun _ hmem => nomatch hmem⟩
  | @plain b body hopen hplain hbody ih =>
    obtain ⟨moves, hpath, hinside⟩ := ih
    have hquote : b ≠ quote := beq_eq_false_iff_ne.1 hopen
    have hbackslash : b ≠ backslash := fun heq => hplain (congrArg some heq.symm)
    have hstep : Mode.string.step b = some .string := by
      rw [Mode.step, if_neg hquote, if_neg hbackslash]
    exact ⟨_, .cons hstep hpath, List.forall_mem_cons.2 ⟨Mode.noConfusion, hinside⟩⟩
  | @pair e b body hopen hescape hbody ih =>
    obtain ⟨moves, hpath, hinside⟩ := ih
    obtain rfl := Option.some.inj hescape
    have hkept : Path .escape (b :: body) ((.escape, .string) :: moves) .string :=
      .cons rfl hpath
    have hinside' : ∀ move ∈ (Mode.escape, Mode.string) :: moves, move.1 ≠ .code :=
      List.forall_mem_cons.2 ⟨Mode.noConfusion, hinside⟩
    exact ⟨_, .cons rfl hkept, List.forall_mem_cons.2 ⟨Mode.noConfusion, hinside'⟩⟩

/-- A word is neither a string nor a comment. -/
theorem wordKind_eq (word : List Byte) :
    wordKind word = .keyword ∨ wordKind word = .identifier := by
  unfold wordKind
  split
  · exact .inl rfl
  · exact .inr rfl

/-- The automaton gets over a lexeme, and enters what the token says. -/
theorem Lexeme.path {used left : List Byte} {token : Token} (h : Lexeme used token left) :
    ∃ moves last, Path .code used moves last ∧ Fits last left ∧ Tally moves [token] := by
  cases h with
  | @number first more _ hfirst hmore hstop =>
    have hall : ∀ b ∈ first :: more, isDigit b = true := List.forall_mem_cons.2 ⟨hfirst, hmore⟩
    have hstay : ∀ b ∈ first :: more, Mode.code.step b = some .code := by
      intro b hb
      exact Mode.step_code_of_plain b (by simp [hall b hb])
    exact ⟨_, _, .stay hstay, .code left, .stay _ Kind.noConfusion Kind.noConfusion⟩
  | @word first more _ hfirst hmore hstop =>
    have hstay : ∀ b ∈ first :: more, Mode.code.step b = some .code := by
      intro b hb
      have hword := forall_isWordByte hfirst hmore b hb
      rw [isWordByte_eq] at hword
      exact Mode.step_code_of_plain b (by simp [hword])
    have htally : Tally (List.replicate (first :: more).length (.code, .code))
        [⟨wordKind (first :: more), first :: more⟩] := by
      rcases wordKind_eq (first :: more) with hkind | hkind <;> rw [hkind]
      · exact .stay _ Kind.noConfusion Kind.noConfusion
      · exact .stay _ Kind.noConfusion Kind.noConfusion
    exact ⟨_, _, .stay hstay, .code left, htally⟩
  | @delimiter b _ hsign =>
    have hstay : ∀ b' ∈ [b], Mode.code.step b' = some .code := by
      intro b' hb'
      obtain rfl := List.mem_singleton.1 hb'
      exact Mode.step_code_of_plain b' (by simp [hsign])
    exact ⟨_, _, .stay hstay, .code left, .stay _ Kind.noConfusion Kind.noConfusion⟩
  | @comment body _ hbody hstop =>
    have hstay : ∀ b ∈ body, Mode.comment.step b = some .comment := by
      intro b hb
      have hne : b ≠ Byte.lineFeed := fun heq => hbody (heq ▸ hb)
      rw [Mode.step, if_neg hne]
    have hinside : ∀ move ∈ List.replicate body.length (Mode.comment, Mode.comment),
        move.1 ≠ .code := by
      intro move hmem
      rw [(List.mem_replicate.1 hmem).2]
      exact Mode.noConfusion
    have hfits : Fits .comment left := by
      cases left with
      | nil => exact .ended _
      | cons b left =>
        obtain rfl := hstop b rfl
        exact .comment left
    exact ⟨_, _, .cons rfl (.stay hstay), hfits, .entered ⟨rfl, rfl⟩ hinside⟩
  | @string body _ hbody =>
    obtain ⟨moves, hpath, hinside⟩ := hbody.path
    have hclose : Path .string [quote] [(.string, .code)] .code := .cons rfl (.nil _)
    have hinside' : ∀ move ∈ moves ++ [(Mode.string, Mode.code)], move.1 ≠ .code :=
      List.forall_mem_append.2 ⟨hinside, List.forall_mem_singleton.2 Mode.noConfusion⟩
    exact ⟨_, _, .cons rfl (hpath.append hclose), .code left, .entered ⟨rfl, rfl⟩ hinside'⟩
  | @unclosed body hbody =>
    obtain ⟨moves, hpath, hinside⟩ := hbody.path
    exact ⟨_, _, .cons rfl hpath, .ended _, .entered ⟨rfl, rfl⟩ hinside⟩
  | @cut body hbody =>
    obtain ⟨moves, hpath, hinside⟩ := hbody.path
    have hcut : Path .string [backslash] [(.string, .escape)] .escape := .cons rfl (.nil _)
    have hinside' : ∀ move ∈ moves ++ [(Mode.string, Mode.escape)], move.1 ≠ .code :=
      List.forall_mem_append.2 ⟨hinside, List.forall_mem_singleton.2 Mode.noConfusion⟩
    exact ⟨_, _, .cons rfl (hpath.append hcut), .ended _, .entered ⟨rfl, rfl⟩ hinside'⟩

/-! ## Readings -/

/-- A line feed is a blank. -/
theorem classify_lineFeed : alphabet.classify Byte.lineFeed = some .ignored :=
  (classify_eq_ignored_iff Byte.lineFeed).2 rfl

/-- No token begins with a line feed, so a lexeme is always entered from code. -/
theorem Lexeme.mode_eq_code {used left : List Byte} {token : Token} (h : Lexeme used token left)
    {m : Mode} (hfits : Fits m (used ++ left)) : m = .code := by
  obtain ⟨category, first, more, rfl, hfirst, -⟩ := h.run_dispatch []
  cases hfits with
  | code => rfl
  | comment rest =>
    have hopens := (classify_eq_opens_iff category Byte.lineFeed).2 hfirst
    exact nomatch hopens.symm.trans classify_lineFeed

/-- A blank leads back to code. -/
theorem Fits.step_blank {m : Mode} {b : Byte} {rest : List Byte} (hfits : Fits m (b :: rest))
    (hblank : isBlank b = true) : m.step b = some .code := by
  cases hfits with
  | code => exact Mode.step_code_of_plain b (by simp [hblank])
  | comment => rfl

/-- A byte that the alphabet does not know is rejected. -/
theorem Fits.step_unknown {m : Mode} {b : Byte} {rest : List Byte} (hfits : Fits m (b :: rest))
    (hunknown : alphabet.classify b = none) : m.step b = none := by
  cases hfits with
  | code => exact Mode.step_code_of_unknown hunknown
  | comment => exact nomatch hunknown.symm.trans classify_lineFeed

/-- The automaton gets over what is read, and enters what the tokens say. -/
theorem Reading.path {read left : List Byte} {tokens : List Token} (h : Reading read left tokens)
    {m : Mode} (hfits : Fits m (read ++ left)) :
    ∃ moves last, Path m read moves last ∧ Fits last left ∧ Tally moves tokens := by
  induction h generalizing m with
  | stop => exact ⟨[], m, .nil m, hfits, ⟨rfl, rfl⟩⟩
  | @blank b read left tokens hblank hrest ih =>
    have hstep := hfits.step_blank hblank
    obtain ⟨moves, last, hpath, hfits', htally⟩ := ih (.code _)
    -- the one move at the blank ends in code, so it enters nothing
    have hmove : Tally [(m, .code)] [] := ⟨by cases m <;> rfl, by cases m <;> rfl⟩
    exact ⟨_, last, .cons hstep hpath, hfits', hmove.append htally⟩
  | @lexeme used read left token tokens hlexeme hrest ih =>
    rw [List.append_assoc] at hfits
    obtain rfl := hlexeme.mode_eq_code hfits
    obtain ⟨moves, mid, hpath, hfits', htally⟩ := hlexeme.path
    obtain ⟨moves', last, hpath', hfits'', htally'⟩ := ih hfits'
    exact ⟨_, last, hpath.append hpath', hfits'', htally.append htally'⟩

/-- Reading stops at the end or in front of a byte that the alphabet does not know. -/
theorem Reading.stops {read left : List Byte} {tokens : List Token}
    (h : Reading read left tokens) : ∀ b ∈ left.head?, alphabet.classify b = none := by
  induction h with
  | stop hstop => exact hstop
  | blank _ _ ih => exact ih
  | lexeme _ _ ih => exact ih

/-- **The tokenizer follows the automaton.**  It succeeds exactly if no byte is rejected, fails at
    the first byte that is, and has a string and a comment for each time that one is entered. -/
theorem tokenize_follows_automaton (source : List Byte) :
    ((∃ tokens, tokenizer.tokenize source = .ok tokens) ↔ (Mode.code.after source).isSome)
      ∧ (Mode.code.after source = none →
        ∃ before b rest, source = before ++ b :: rest ∧ Mode.code.Rejects before b
          ∧ tokenizer.tokenize source
            = .error (.unexpectedByte b (.ofOffset source before.length)))
      ∧ (∀ category location, tokenizer.tokenize source ≠ .error (.stalled category location))
      ∧ ∀ tokens, tokenizer.tokenize source = .ok tokens →
        tokens.countP (·.kind = .string) = (Mode.code.moves source).count (.code, .string)
          ∧ tokens.countP (·.kind = .comment)
            = (Mode.code.moves source).count (.code, .comment) := by
  obtain ⟨read, left, tokens, rfl, hreading⟩ := exists_reading source
  obtain ⟨moves, last, hpath, hfits, htally⟩ := hreading.path (.code _)
  cases left with
  | nil =>
    -- everything is read, and the automaton gets over it
    have hok : tokenizer.tokenize (read ++ []) = .ok tokens := hreading.tokenize_eq
    rw [hok, List.append_nil, hpath.after_eq, hpath.moves_eq]
    refine ⟨⟨fun _ => rfl, fun _ => ⟨tokens, rfl⟩⟩, ?_, ?_, ?_⟩
    · intro hnone
      exact nomatch hnone
    · intro category location heq
      exact nomatch heq
    · intro tokens' heq
      obtain rfl := Except.ok.inj heq
      exact ⟨htally.strings.symm, htally.comments.symm⟩
  | cons b rest =>
    -- the automaton gets over the bytes that are read, and rejects the next one
    have hstep := hfits.step_unknown (hreading.stops b rfl)
    have hrejects : Mode.code.Rejects read b := ⟨last, hpath.after_eq, hstep⟩
    have herror : tokenizer.tokenize (read ++ b :: rest)
        = .error (.unexpectedByte b (.ofOffset (read ++ b :: rest) read.length)) := by
      rw [hreading.tokenize_eq, Location.ofOffset_append]
      rfl
    rw [hrejects.after_eq rest]
    refine ⟨⟨?_, Bool.noConfusion⟩, fun _ => ⟨read, b, rest, rfl, hrejects, herror⟩, ?_, ?_⟩
    · rintro ⟨tokens', heq⟩
      exact nomatch herror.symm.trans heq
    · intro category location heq
      exact nomatch herror.symm.trans heq
    · intro tokens' heq
      exact nomatch herror.symm.trans heq

-- a string that keeps a quote and holds a hash, a comment that holds a quote, and a string that
-- the source cuts off behind a backslash; then a dollar sign that is fine in a string, and another
-- one behind it
theorem tokenize_follows_automaton_cutOff :
    (∃ tokens, tokenizer.tokenize [0x22, 0x5c, 0x22, 0x23, 0x22, 0x23, 0x22, 0x0a, 0x22, 0x5c]
        = .ok tokens ∧ tokens.countP (·.kind = .string) = 2
          ∧ tokens.countP (·.kind = .comment) = 1)
      ∧ ∃ before b rest, [0x22, 0x24, 0x22, 0x24, 0x61] = before ++ b :: rest
        ∧ Mode.code.Rejects before b
        ∧ tokenizer.tokenize [0x22, 0x24, 0x22, 0x24, 0x61]
          = .error (.unexpectedByte b
            (.ofOffset [0x22, 0x24, 0x22, 0x24, 0x61] before.length)) := by
  constructor
  · obtain ⟨hiff, -, -, htally⟩ := tokenize_follows_automaton
      [0x22, 0x5c, 0x22, 0x23, 0x22, 0x23, 0x22, 0x0a, 0x22, 0x5c]
    obtain ⟨tokens, hok⟩ := hiff.2 (by decide)
    obtain ⟨hstrings, hcomments⟩ := htally tokens hok
    exact ⟨tokens, hok, hstrings.trans (by decide), hcomments.trans (by decide)⟩
  · obtain ⟨-, hnone, -⟩ := tokenize_follows_automaton [0x22, 0x24, 0x22, 0x24, 0x61]
    exact hnone (by decide)

end ByteTokenizer.Program.Language
