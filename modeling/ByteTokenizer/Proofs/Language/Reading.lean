/-
  READING: what the small language makes of a whole source.

  `Reading read left tokens` says that the bytes `read` of a source are blanks and lexemes, that
  the lexemes give `tokens`, and that reading stops in front of `left`: it is empty, or its first
  byte is one that opens nothing.

  Every source has a reading (`exists_reading`), and the tokenizer of the language gives what the
  reading says: its tokens, or the failure at the byte in front of which it stops
  (`Reading.tokenize_eq`).  So a fact about the tokenizer is an induction over readings, in steps
  of one blank or one lexeme, and no cursor is left in it.
-/
import ByteTokenizer.Proofs.Language.Lexeme
import ByteTokenizer.Proofs.Tokenizer.Head

namespace ByteTokenizer

open Cursor (between)

namespace Program.Language

/-- The bytes `read` in front of `left` are blanks and the lexemes of the tokens, and `left` does
    not go on with either. -/
inductive Reading : (read left : List Byte) → (tokens : List Token) → Prop where
  | stop {left : List Byte} (hstop : ∀ b ∈ left.head?, alphabet.classify b = none) :
      Reading [] left []
  | blank {b : Byte} {read left : List Byte} {tokens : List Token} (hblank : isBlank b = true)
      (hrest : Reading read left tokens) : Reading (b :: read) left tokens
  | lexeme {used read left : List Byte} {token : Token} {tokens : List Token}
      (hlexeme : Lexeme used token (read ++ left)) (hrest : Reading read left tokens) :
      Reading (used ++ read) left (token :: tokens)

/-- Every source has a reading. -/
theorem exists_reading (source : List Byte) :
    ∃ read left tokens, source = read ++ left ∧ Reading read left tokens := by
  induction hlen : source.length using Nat.strongRecOn generalizing source with
  | ind k ih =>
    cases source with
    | nil => exact ⟨[], [], [], rfl, .stop fun b hb => nomatch hb⟩
    | cons b rest =>
      rcases hclass : alphabet.classify b with _ | _ | category
      · refine ⟨[], b :: rest, [], rfl, .stop fun b' hb' => ?_⟩
        obtain rfl := Option.some.inj hb'
        exact hclass
      · have hblank := (classify_eq_ignored_iff b).1 hclass
        have hlt : rest.length < k := by
          rw [← hlen, List.length_cons]
          omega
        obtain ⟨read, left, tokens, rfl, hreading⟩ := ih rest.length hlt rest rfl
        exact ⟨b :: read, left, tokens, rfl, .blank hblank hreading⟩
      · have hopens := (classify_eq_opens_iff category b).1 hclass
        obtain ⟨used, token, behind, hsource, hne, hlexeme⟩ := exists_lexeme hopens rest
        have hlt : behind.length < k := by
          have hpos := List.length_pos_iff.2 hne
          rw [hsource, List.length_append] at hlen
          omega
        obtain ⟨read, left, tokens, rfl, hreading⟩ := ih behind.length hlt behind rfl
        refine ⟨used ++ read, left, token :: tokens, ?_, .lexeme hlexeme hreading⟩
        rw [hsource, List.append_assoc]

/-- What a reading gives: its tokens, or the byte in front of which it stops. -/
def outcome (read : List Byte) (tokens : List Token) : List Byte → Except Failure (List Token)
  | [] => .ok tokens
  | b :: _ => .error (.unexpectedByte b (.after read))

/-- The run over a source gives what the reading of it gives. -/
theorem Reading.result_eq {read left : List Byte} {tokens : List Token}
    (h : Reading read left tokens) (before : List Byte) :
    (tokenizer.runFrom (between before (read ++ left))).result
      = outcome (before ++ read) tokens left := by
  induction h generalizing before with
  | @stop left hstop =>
    rw [List.nil_append, List.append_nil]
    cases left with
    | nil =>
      have hended : tokenizer.turn (between before []) = .finished :=
        Tokenizer.TurnsTo.ended.turn_eq
      rw [Tokenizer.runFrom_of_finished hended]
      rfl
    | cons b left =>
      have hunknown : tokenizer.turn (between before (b :: left)) = _ :=
        (Tokenizer.TurnsTo.unknown (hstop b rfl)).turn_eq
      rw [Tokenizer.runFrom_of_failed hunknown]
      rfl
  | @blank b read left tokens hblank hrest ih =>
    have hignored : tokenizer.turn (between before (b :: (read ++ left))) = _ :=
      (Tokenizer.TurnsTo.ignored ((classify_eq_ignored_iff b).2 hblank)).turn_eq
    rw [List.cons_append, Tokenizer.result_of_onward hignored, ih, List.append_assoc]
    cases left <;> rfl
  | @lexeme used read left token tokens hlexeme hrest ih =>
    obtain ⟨dispatch, htokens, hturns⟩ := hlexeme.turnsTo before
    have hgives : (some dispatch).toList.flatMap (·.tokens) = [token] := by
      rw [Option.toList_some, List.flatMap_singleton, htokens]
    rw [List.append_assoc, Tokenizer.result_of_onward hturns.turn_eq, ih, hgives,
      List.append_assoc]
    cases left <;> rfl

/-- **The tokenizer gives what the reading gives.** -/
theorem Reading.tokenize_eq {read left : List Byte} {tokens : List Token}
    (h : Reading read left tokens) :
    tokenizer.tokenize (read ++ left) = outcome read tokens left := by
  rw [Tokenizer.tokenize, Tokenizer.run, Cursor.advance_fresh]
  exact h.result_eq []

/-- The tokenizer succeeds exactly with the tokens of a reading of the whole source. -/
theorem tokenize_eq_ok_iff {source : List Byte} {tokens : List Token} :
    tokenizer.tokenize source = .ok tokens ↔ Reading source [] tokens := by
  constructor
  · intro hok
    obtain ⟨read, left, tokens', rfl, hreading⟩ := exists_reading source
    rw [hreading.tokenize_eq] at hok
    cases left with
    | nil =>
      obtain rfl := Except.ok.inj hok
      rw [List.append_nil]
      exact hreading
    | cons b left => exact nomatch hok
  · intro hreading
    have heq := hreading.tokenize_eq
    rw [List.append_nil] at heq
    exact heq

end Program.Language

end ByteTokenizer
