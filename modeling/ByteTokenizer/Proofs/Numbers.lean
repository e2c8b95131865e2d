/-
  NUMBERS, END TO END: what the program for numbers leaves behind, for every argument.

  1. The rule that is written by hand takes what the ready-made rule for runs of digits takes, on
     every cursor that stands on a digit (`rule_run_eq`).  It sees 0 where there is no byte, and
     it makes no difference that a byte of the content may be 0 as well.

  2. So the tokenizer of the program follows the grouping that makes one number of each run of
     digits (`follows`), and it reads the texts of digits and blanks (`classify_ne_none_iff`).

  3. Such a text is in ASCII.  The numbers are its pieces between blanks, without the empty ones
     (`display_tokens`), and the listing has one line for each (`listing_eq`).

  4. In any other text there is a first byte that is neither.  A line feed is such a byte, so all
     bytes before it are on the first line.
-/
import ByteTokenizer.Program.Numbers
import ByteTokenizer.Proofs.Location
import ByteTokenizer.Proofs.Rule.Pattern
import ByteTokenizer.Proofs.Text.Ascii
import ByteTokenizer.Proofs.Tokenizer.Grouping

namespace ByteTokenizer.Program.Numbers

open Cursor (between)

/-! ## The rule -/

theorem accepts_digits_iff (b : Byte) : Range.digits.accepts b = true ↔ 0x30 ≤ b ∧ b ≤ 0x39 := by
  rw [Range.digits, Range.accepts_interval, Bool.and_eq_true, decide_eq_true_iff,
    decide_eq_true_iff]

/-- Where no digit is ahead, `char` shows none: not even at the end, where it shows 0. -/
theorem accepts_char_eq_false {left : List Byte}
    (hstop : ∀ b ∈ left.head?, Range.digits.accepts b = false) (before : List Byte) :
    Range.digits.accepts (between before left).char = false := by
  rw [Cursor.char, Cursor.current_between]
  cases left with
  | nil => decide
  | cons b left => exact hstop b rfl

theorem digitsFrom_of_digit {c : Cursor} (h : Range.digits.accepts c.char = true) :
    digitsFrom c = (c.char :: (digitsFrom c.advance).1, (digitsFrom c.advance).2) := by
  rw [digitsFrom, dif_pos h]

theorem digitsFrom_of_other {c : Cursor} (h : Range.digits.accepts c.char = false) :
    digitsFrom c = ([], c) := by
  rw [digitsFrom, dif_neg (Bool.eq_false_iff.1 h)]

/-- The loop over `char` takes the run of digits ahead. -/
theorem digitsFrom_between {body left : List Byte}
    (hbody : ∀ b ∈ body, Range.digits.accepts b = true)
    (hstop : ∀ b ∈ left.head?, Range.digits.accepts b = false) (before : List Byte) :
    digitsFrom (between before (body ++ left)) = (body, between (before ++ body) left) := by
  induction body generalizing before with
  | nil =>
    rw [List.nil_append, List.append_nil]
    exact digitsFrom_of_other (accepts_char_eq_false hstop before)
  | cons b body ih =>
    obtain ⟨hb, hbody⟩ := List.forall_mem_cons.1 hbody
    have hchar : (between before (b :: (body ++ left))).char = b := by
      rw [Cursor.char, Cursor.current_between]
      rfl
    have hdigit : Range.digits.accepts (between before (b :: (body ++ left))).char = true :=
      hchar.symm ▸ hb
    rw [List.cons_append, digitsFrom_of_digit hdigit, Cursor.advance_between_cons,
      ih hbody (before ++ [b]), hchar, List.append_assoc]
    rfl

/-- The rule takes the byte ahead and the digits behind it. -/
theorem run_rule {first : Byte} {more left : List Byte}
    (hmore : ∀ b ∈ more, Range.digits.accepts b = true)
    (hstop : ∀ b ∈ left.head?, Range.digits.accepts b = false) (before : List Byte) :
    rule.run (between before (first :: more ++ left))
      = (⟨.number, first :: more⟩, between (before ++ first :: more) left) := by
  have hfirst : (between before (first :: (more ++ left))).char = first := by
    rw [Cursor.char, Cursor.current_between]
    rfl
  have hdigits : digits.run (between (before ++ [first]) (more ++ left)) = _ :=
    digitsFrom_between hmore hstop (before ++ [first])
  rw [rule, List.cons_append, Scan.run_bind, Scan.run_look, Scan.run_bind, Scan.run_advance,
    Cursor.advance_between_cons, Scan.run_bind, hdigits, Scan.run_pure, hfirst, List.append_assoc]
  rfl

/-- On a digit the rule does what the ready-made rule for runs of digits does. -/
theorem rule_run_eq {c : Cursor} {b : Byte} (hbyte : c.current = some b)
    (hdigit : Range.digits.accepts b = true) :
    rule.run c = (Pattern.rule ⟨.number, .rangeRun .digits .never⟩).run c := by
  obtain ⟨before, first, rest, rfl⟩ :=
    Cursor.exists_between_of_current (c := c) (by simp [hbyte])
  obtain rfl : first = b := by simpa using hbyte
  obtain ⟨more, left, rfl, hmore, hstop⟩ := exists_accepted_run Range.digits.accepts rest
  have hsplit := Shape.split_append_of_run? (Shape.run?_rangeRun_never .digits)
    (List.forall_mem_cons.2 ⟨hdigit, hmore⟩) hstop
  have hpattern := Pattern.run_rule_bare (p := ⟨.number, .rangeRun .digits .never⟩) hsplit before
  exact (run_rule hmore hstop before).trans hpattern.symm

/-! ## The tokenizer -/

/-- The bytes that the program reads: digits and blanks. -/
def Readable (b : Byte) : Prop := (0x30 ≤ b ∧ b ≤ 0x39) ∨ b = 0x20

instance (b : Byte) : Decidable (Readable b) :=
  inferInstanceAs (Decidable ((0x30 ≤ b ∧ b ≤ 0x39) ∨ b = 0x20))

/-- The alphabet, byte by byte. -/
theorem classify_iff (b : Byte) :
    (alphabet.classify b = some .ignored ↔ b = 0x20)
      ∧ (alphabet.classify b ≠ none ↔ Readable b)
      ∧ ∀ category ∈ Category.all, (alphabet.classify b = some (.opens category)
        ↔ category = .number ∧ Range.digits.accepts b = true) := by
  revert b
  exact Byte.forall_of_all (by decide +kernel)

/-- A byte stands between numbers exactly if it is the blank. -/
theorem classify_eq_ignored_iff (b : Byte) : alphabet.classify b = some .ignored ↔ b = 0x20 :=
  (classify_iff b).1

/-- The bytes that have a class are the readable ones. -/
theorem classify_ne_none_iff (b : Byte) : alphabet.classify b ≠ none ↔ Readable b :=
  (classify_iff b).2.1

/-- All that a byte can open is a number, and the digits do. -/
theorem classify_eq_opens_iff (category : Category) (b : Byte) :
    alphabet.classify b = some (.opens category)
      ↔ category = .number ∧ Range.digits.accepts b = true :=
  (classify_iff b).2.2 category (by cases category <;> decide)

/-- Each run of digits makes one number. -/
def grouping : Grouping where
  alphabet := alphabet
  kind _ := .number
  joins _ := true

/-- The tokenizer of the program takes the runs of digits. -/
theorem follows : tokenizer.Follows grouping where
  alphabet := rfl
  joined := by
    intro category _ run rest hne hrun hstop before
    have hdigits : ∀ b ∈ run, category = .number ∧ Range.digits.accepts b = true :=
      fun b hb => (classify_eq_opens_iff category b).1 (hrun b hb)
    obtain ⟨first, more, rfl⟩ := List.exists_cons_of_ne_nil hne
    obtain ⟨⟨rfl, -⟩, hmore⟩ := List.forall_mem_cons.1 hdigits
    have hend : ∀ b ∈ rest.head?, Range.digits.accepts b = false := fun b hb =>
      Bool.eq_false_iff.2 fun hdigit => hstop b hb ((classify_eq_opens_iff _ b).2 ⟨rfl, hdigit⟩)
    exact Tokenizer.run_dispatch_of_rules rfl (run_rule (fun b hb => (hmore b hb).2) hend before)
  single hjoins := nomatch hjoins

/-! ## The pieces of a text -/

/-- What stands between the blanks of a text, without the empty pieces. -/
def pieces (chars : List Char) : List (List Char) := (chars.splitOn ' ').filter (· ≠ [])

/-- A blank in front makes no difference. -/
theorem pieces_blank (chars : List Char) : pieces (' ' :: chars) = pieces chars := by
  rw [pieces, List.splitOn_cons_eq_if_modifyHead, if_pos (beq_self_eq_true ' '), List.filter_cons]
  rfl

/-- Neither do more of them. -/
theorem pieces_blanks {run : List Char} (hrun : ∀ c ∈ run, c = ' ') (rest : List Char) :
    pieces (run ++ rest) = pieces rest := by
  induction run with
  | nil => rfl
  | cons c run ih =>
    obtain ⟨rfl, hmore⟩ := List.forall_mem_cons.1 hrun
    rw [List.cons_append, pieces_blank, ih hmore]

/-- A run without a blank is a piece, if a blank or nothing comes behind it. -/
theorem pieces_append {run rest : List Char} (hne : run ≠ []) (hrun : ' ' ∉ run)
    (hstop : ∀ c ∈ rest.head?, c = ' ') : pieces (run ++ rest) = run :: pieces rest := by
  cases rest with
  | nil =>
    rw [List.append_nil, pieces, List.splitOn_eq_singleton hrun]
    simp [hne, pieces]
  | cons c rest =>
    obtain rfl := hstop c rfl
    rw [pieces_blank, pieces, List.splitOn_append_cons_self_of_not_mem hrun, List.filter_cons,
      if_pos (decide_eq_true hne)]
    rfl

/-! ## The listing -/

/-- A readable character of ASCII that is no digit is the blank. -/
theorem eq_blank {c : Char} (hc : c.toNat < 0x80 ∧ Readable c.toUInt8)
    (hno : alphabet.classify c.toUInt8 ≠ some (.opens .number)) : c = ' ' := by
  obtain ⟨hascii, hdigit | hblank⟩ := hc
  · exact absurd ((classify_eq_opens_iff _ _).2 ⟨rfl, (accepts_digits_iff _).2 hdigit⟩) hno
  · have hnat := congrArg UInt8.toNat hblank
    rw [Text.Utf8.toNat_toUInt8 hascii] at hnat
    rw [← Char.ofNat_toNat c, hnat]
    rfl

/-- A number is shown with its digits. -/
theorem display_number {digits : List Char} (hascii : ∀ c ∈ digits, c.toNat < 0x80) :
    Token.display ⟨.number, Byte.ofChars digits⟩ = "number(" ++ String.ofList digits ++ ")" := by
  rw [Token.display, Text.Utf8.lossy_ofChars hascii]
  rfl

/-- A run of characters is a run of their bytes. -/
theorem tokens_ofChars_append {run rest : List Char} {meaning : Option ByteMeaning}
    (hne : run ≠ []) (hrun : ∀ c ∈ run, alphabet.classify c.toUInt8 = meaning)
    (hstop : ∀ c ∈ rest.head?, alphabet.classify c.toUInt8 ≠ meaning) :
    grouping.tokens (Byte.ofChars (run ++ rest))
      = grouping.tokensOf (Byte.ofChars run) ++ grouping.tokens (Byte.ofChars rest) := by
  have hbytes : ∀ b ∈ Byte.ofChars run, grouping.alphabet.classify b = meaning :=
    List.forall_mem_map.2 hrun
  have hbehind : ∀ b ∈ (Byte.ofChars rest).head?, grouping.alphabet.classify b ≠ meaning := by
    intro b hb
    rw [Byte.ofChars, List.head?_map] at hb
    obtain ⟨c, hc, rfl⟩ := Option.map_eq_some_iff.1 hb
    exact hstop c hc
  have hne' : Byte.ofChars run ≠ [] := fun hnil => hne (List.map_eq_nil_iff.1 hnil)
  have hsplit : Byte.ofChars (run ++ rest) = Byte.ofChars run ++ Byte.ofChars rest :=
    List.map_append
  rw [hsplit, grouping.tokens_append hne' hbytes hbehind]

/-- The numbers of a text are its pieces. -/
theorem display_tokens {chars : List Char}
    (hchars : ∀ c ∈ chars, c.toNat < 0x80 ∧ Readable c.toUInt8) :
    (grouping.tokens (Byte.ofChars chars)).map Token.display
      = (pieces chars).map fun piece => "number(" ++ String.ofList piece ++ ")" := by
  induction chars using runs_induction (fun c : Char => alphabet.classify c.toUInt8) with
  | nil => rfl
  | run meaning run rest hne hrun hstop ih =>
    obtain ⟨hcharsRun, hcharsRest⟩ := List.forall_mem_append.1 hchars
    rw [tokens_ofChars_append hne hrun hstop, List.map_append, ih hcharsRest]
    by_cases hdigits : meaning = some (.opens .number)
    · -- a run of digits is one number and one piece
      rw [hdigits] at hrun hstop
      have hpiece : ' ' ∉ run := fun hmem => absurd (hrun ' ' hmem) (by decide)
      have hend : ∀ c ∈ rest.head?, c = ' ' := fun c hc =>
        eq_blank (hcharsRest c (List.mem_of_mem_head? hc)) (hstop c hc)
      have hnumber : grouping.tokensOf (Byte.ofChars run) = [⟨.number, Byte.ofChars run⟩] :=
        grouping.tokensOf_joined rfl (fun hnil => hne (List.map_eq_nil_iff.1 hnil))
          (List.forall_mem_map.2 hrun)
      rw [hnumber, List.map_singleton, display_number fun c hc => (hcharsRun c hc).1,
        pieces_append hne hpiece hend]
      rfl
    · -- a run of blanks is nothing
      have hblanks : ∀ c ∈ run, c = ' ' := fun c hc =>
        eq_blank (hcharsRun c hc) (hrun c hc ▸ hdigits)
      have hnothing : grouping.tokensOf (Byte.ofChars run) = [] := by
        refine grouping.tokensOf_ignored
          (List.forall_mem_map.2 fun c hc => (classify_eq_ignored_iff _).2 ?_)
        rw [hblanks c hc]
        rfl
      rw [hnothing, pieces_blanks hblanks]
      rfl

/-- A line for each piece of a text, numbered from 0. -/
def pieceLines (chars : List Char) : String :=
  String.join ((pieces chars).zipIdx.map fun (piece, i) =>
    "  " ++ toString i ++ ": number(" ++ String.ofList piece ++ ")\n")

/-- The listing of tokens that are shown as the pieces of a text. -/
theorem listing_eq {tokens : List Token} {chars : List Char}
    (htokens : tokens.map Token.display
      = (pieces chars).map fun piece => "number(" ++ String.ofList piece ++ ")") :
    listing tokens = pieceLines chars := by
  have hshown : listing tokens
      = String.join ((tokens.map Token.display).zipIdx.map fun (shown, i) =>
        "  " ++ toString i ++ ": " ++ shown ++ "\n") := by
    rw [List.zipIdx_map, List.map_map]
    rfl
  rw [hshown, htokens, List.zipIdx_map, List.map_map]
  refine congrArg String.join (List.map_congr_left fun (piece, i) _ => ?_)
  show "  " ++ toString i ++ ": " ++ ("number(" ++ String.ofList piece ++ ")") ++ "\n" = _
  have hopening : ": number(" = ": " ++ "number(" := rfl
  have hclosing : ")\n" = ")" ++ "\n" := rfl
  rw [hopening, hclosing]
  simp only [String.append_assoc]

/-! ## The program -/

/-- On a text of digits and blanks the program succeeds, with one line for each piece. -/
theorem run_of_readable {text : String}
    (hreadable : ∀ b ∈ Text.Utf8.encode text, Readable b) :
    run (some text)
      = .success ("Tokenizing: " ++ text ++ "\n\nTokens:\n" ++ pieceLines text.toList) := by
  have hbelow : ∀ b, Readable b → b < 0x80 := Byte.forall_of_all (by decide +kernel)
  obtain ⟨hascii, hencode⟩ :=
    Text.Utf8.ascii_of_encode fun b hb => hbelow b (hreadable b hb)
  have hchars : ∀ c ∈ text.toList, c.toNat < 0x80 ∧ Readable c.toUInt8 := by
    intro c hc
    refine ⟨hascii c hc, hreadable _ ?_⟩
    rw [hencode]
    exact List.mem_map_of_mem hc
  have hok := follows.tokenize_known fun b hb => (classify_ne_none_iff b).2 (hreadable b hb)
  rw [hencode] at hok
  rw [run, Option.getD_some, hencode, hok, ← listing_eq (display_tokens hchars)]

/-- What is said of a byte that is neither, which is on the first line. -/
theorem message_of_first_line (b : Byte) (offset : Nat) :
    (Failure.unexpectedByte b ⟨1, offset + 1, offset⟩).message
      = "unexpected byte '" ++ Byte.escape b ++ "' (0x" ++ Byte.hex b
        ++ ") at line 1, column " ++ toString (offset + 1) := by
  have hline : ") at line 1, column " = ") at " ++ ("line " ++ (toString 1 ++ ", column ")) := by
    decide +kernel
  show "unexpected byte '" ++ Byte.escape b ++ "' (0x" ++ Byte.hex b ++ ") at "
    ++ ("line " ++ toString 1 ++ ", column " ++ toString (offset + 1)) = _
  rw [hline]
  simp only [String.append_assoc]

/-- On any other text it fails at the first byte that is neither. -/
theorem run_of_not_readable {before rest : List Byte} {b : Byte} {text : String}
    (hencode : Text.Utf8.encode text = before ++ b :: rest)
    (hbefore : ∀ b' ∈ before, Readable b') (hb : ¬ Readable b) :
    tokenizer.tokenize (Text.Utf8.encode text)
        = .error (.unexpectedByte b ⟨1, before.length + 1, before.length⟩)
      ∧ run (some text) = .failure ("tokenize error: unexpected byte '" ++ Byte.escape b ++ "' (0x"
        ++ Byte.hex b ++ ") at line 1, column " ++ toString (before.length + 1)) := by
  have hlineFeed : Byte.lineFeed ∉ before := fun hmem => absurd (hbefore _ hmem) (by decide)
  have hclass : alphabet.classify b = none :=
    Classical.not_not.1 fun hclass => hb ((classify_ne_none_iff b).1 hclass)
  have hfail := follows.tokenize_unknown
    (fun b' hb' => (classify_ne_none_iff b').2 (hbefore b' hb')) hclass rest
  rw [Location.after_of_not_mem hlineFeed, ← hencode] at hfail
  refine ⟨hfail, ?_⟩
  have hopening : "tokenize error: unexpected byte '"
      = "tokenize error: " ++ "unexpected byte '" := by
    decide +kernel
  rw [run, Option.getD_some, hfail, hopening]
  simp only [message_of_first_line, String.append_assoc]

/-- **The program lists the numbers of its argument.**  The rule written by hand is as good as the
    ready-made one on every digit.  On a text of digits and blanks, and on no other, the program
    exits with 0; it writes the text and a line for each piece of it.  On any other it exits with
    1 and reports the first byte that is neither, which is on the first line. -/
theorem numbers_are_listed :
    (∀ c b, Cursor.current c = some b → 0x30 ≤ b → b ≤ 0x39 →
        rule.run c = (Pattern.rule ⟨.number, .rangeRun (.interval 0x30 0x39) .never⟩).run c)
      ∧ run none = run (some sample)
      ∧ ∀ text : String,
        ((run (some text)).code = 0 ↔ ∀ b ∈ Text.Utf8.encode text, Readable b)
          ∧ ((∀ b ∈ Text.Utf8.encode text, Readable b) →
            (run (some text)).stderr = ""
              ∧ (run (some text)).stdout
                = "Tokenizing: " ++ text ++ "\n\nTokens:\n" ++ pieceLines text.toList)
          ∧ ((¬ ∀ b ∈ Text.Utf8.encode text, Readable b) →
            ∃ before b rest, Text.Utf8.encode text = before ++ b :: rest
              ∧ (∀ b' ∈ before, Readable b') ∧ ¬ Readable b
              ∧ tokenizer.tokenize (Text.Utf8.encode text)
                = .error (.unexpectedByte b ⟨1, before.length + 1, before.length⟩)
              ∧ (run (some text)).code = 1 ∧ (run (some text)).stdout = ""
              ∧ (run (some text)).stderr = "tokenize error: unexpected byte '" ++ Byte.escape b
                ++ "' (0x" ++ Byte.hex b ++ ") at line 1, column " ++ toString (before.length + 1)
                ++ "\n") := by
  refine ⟨fun c b hbyte hlo hhi => rule_run_eq hbyte ((accepts_digits_iff b).2 ⟨hlo, hhi⟩), rfl,
    fun text => ?_⟩
  obtain ⟨before, left, hencode, hbefore, hstop⟩ :=
    exists_accepted_run (fun b => decide (Readable b)) (Text.Utf8.encode text)
  have hbefore' : ∀ b ∈ before, Readable b := fun b hb => of_decide_eq_true (hbefore b hb)
  cases left with
  | nil =>
    rw [List.append_nil] at hencode
    have hreadable : ∀ b ∈ Text.Utf8.encode text, Readable b := hencode ▸ hbefore'
    rw [run_of_readable hreadable]
    exact ⟨⟨fun _ => hreadable, fun _ => rfl⟩, fun _ => ⟨rfl, rfl⟩,
      fun hnot => absurd hreadable hnot⟩
  | cons b rest =>
    have hb : ¬ Readable b := of_decide_eq_false (hstop b rfl)
    have hnot : ¬ ∀ b ∈ Text.Utf8.encode text, Readable b := by
      intro hreadable
      exact hb (hreadable b (by simp [hencode]))
    obtain ⟨hfail, hrun⟩ := run_of_not_readable hencode hbefore' hb
    have hcode : (run (some text)).code = 1 := by
      rw [hrun]
      rfl
    refine ⟨⟨fun hzero => ?_, fun hreadable => absurd hreadable hnot⟩,
      fun hreadable => absurd hreadable hnot,
      fun _ => ⟨before, b, rest, hencode, hbefore', hb, hfail, hcode, ?_, ?_⟩⟩
    · exact absurd (hcode.symm.trans hzero) (by decide)
    · rw [hrun]
      rfl
    · rw [hrun]
      rfl

-- blanks at both ends and two in the middle; a digit and a NUL ahead; a letter of two bytes
theorem numbers_are_listed_blanks :
    (run (some " 12  007 ")).stdout
        = "Tokenizing:  12  007 \n\nTokens:\n  0: number(12)\n  1: number(007)\n"
      ∧ rule.run (between [] [0x37, 0x00])
        = (Pattern.rule ⟨.number, .rangeRun (.interval 0x30 0x39) .never⟩).run
          (between [] [0x37, 0x00])
      ∧ (run (some "1é")).code = 1 ∧ (run (some "1é")).stdout = ""
      ∧ (run (some "1é")).stderr
        = "tokenize error: unexpected byte '\\xc3' (0xc3) at line 1, column 2\n" := by
  have hreadable : ∀ b ∈ Text.Utf8.encode " 12  007 ", Readable b := by decide +kernel
  have hnot : ¬ ∀ b ∈ Text.Utf8.encode "1é", Readable b := by decide +kernel
  obtain ⟨-, hstdout⟩ := (numbers_are_listed.2.2 " 12  007 ").2.1 hreadable
  obtain ⟨before, b, rest, hencode, hbefore, hb, -, hcode, hempty, hstderr⟩ :=
    (numbers_are_listed.2.2 "1é").2.2 hnot
  -- the bytes are 31 c3 a9, so only the 1 comes before the first byte that cannot be read
  have hbytes : Text.Utf8.encode "1é" = [0x31, 0xc3, 0xa9] := by decide +kernel
  have hone : [0x31, 0xc3, 0xa9].takeWhile (fun x => decide (Readable x)) = before := by
    rw [← hbytes, hencode]
    exact takeWhile_append_of_stop (fun x hx => decide_eq_true (hbefore x hx))
      fun x hx => decide_eq_false (Option.some.inj hx ▸ hb)
  obtain rfl : [0x31] = before := hone
  obtain rfl : 0xc3 = b := (List.cons.inj (List.cons.inj (hbytes.symm.trans hencode)).2).1
  refine ⟨hstdout.trans (by decide +kernel), ?_, hcode, hempty, hstderr.trans (by decide +kernel)⟩
  exact numbers_are_listed.1 _ 0x37 rfl (by decide) (by decide)

end ByteTokenizer.Program.Numbers
