/-
  ROUND TRIPS: writing the tokens of the small language down and reading them again.

  `WellFormed` says of a token what its kind promises about its bytes, without mentioning how it
  was read.  Well-formed tokens are what the two halves have in common.

  1. Written down and followed by a line feed, a well-formed token is a lexeme
     (`WellFormed.lexeme`).  So a list of them, each on a line of its own, is read as that list
     (`tokenize_render`).

  2. The token of a lexeme is well formed, but for one case: a string that the source cuts off
     behind a backslash that has nothing to keep (`Lexeme.wellFormed_or_cut`).  Such a string ends
     the source, so it can only be the last token (`CutOff`).

  3. In that one case, and in no other, the way back fails (`render_roundTrip`): there the line
     feed becomes what the backslash keeps.
-/
import ByteTokenizer.Proofs.Language.Reading

namespace ByteTokenizer.Program.Language

/-! ## Well-formed tokens -/

/-- The words let, fn and return. -/
def Reserved (word : List Byte) : Prop :=
  word = Byte.ofChars ['l', 'e', 't'] ∨ word = Byte.ofChars ['f', 'n']
    ∨ word = Byte.ofChars ['r', 'e', 't', 'u', 'r', 'n']

/-- A token whose bytes are what its kind promises. -/
inductive WellFormed : Token → Prop where
  | number {digits : List Byte} (hne : digits ≠ []) (hdigits : ∀ b ∈ digits, isDigit b = true) :
      WellFormed ⟨.number, digits⟩
  | keyword {word : List Byte} (hword : Reserved word) : WellFormed ⟨.keyword, word⟩
  | identifier {first : Byte} {more : List Byte} (hfirst : isLetter first = true)
      (hmore : ∀ b ∈ more, (isLetter b || isDigit b) = true) (hword : ¬ Reserved (first :: more)) :
      WellFormed ⟨.identifier, first :: more⟩
  | delimiter {b : Byte} (hsign : isSign b = true) : WellFormed ⟨.delimiter, [b]⟩
  | comment {body : List Byte} (hbody : Byte.lineFeed ∉ body) : WellFormed ⟨.comment, body⟩
  | string {body : List Byte} (hbody : StringBody body) : WellFormed ⟨.string, body⟩

/-- All tokens are well formed, except that the last one is a string whose body ends with an
    unpaired backslash. -/
inductive CutOff : List Token → Prop where
  | last {body : List Byte} (hbody : StringBody body) : CutOff [⟨.string, body ++ [backslash]⟩]
  | cons {token : Token} {tokens : List Token} (htoken : WellFormed token)
      (htokens : CutOff tokens) : CutOff (token :: tokens)

/-- An unpaired backslash is not well formed. -/
theorem CutOff.exists_not_wellFormed {tokens : List Token} (h : CutOff tokens) :
    ∃ token ∈ tokens, ¬ WellFormed token := by
  induction h with
  | @last body hbody =>
    refine ⟨_, List.mem_singleton_self _, fun hwf => ?_⟩
    cases hwf with
    | string hbody' => exact hbody.not_append_escape rfl hbody'
  | cons htoken htokens ih =>
    obtain ⟨token, hmem, hnot⟩ := ih
    exact ⟨token, List.mem_cons_of_mem _ hmem, hnot⟩

/-- The keywords are the reserved words. -/
theorem mem_keywords_iff (word : List Byte) : word ∈ keywords ↔ Reserved word := by
  simp [keywords, Reserved]

theorem wordKind_of_reserved {word : List Byte} (h : Reserved word) : wordKind word = .keyword :=
  if_pos (List.contains_iff_mem.2 ((mem_keywords_iff word).2 h))

theorem wordKind_of_not_reserved {word : List Byte} (h : ¬ Reserved word) :
    wordKind word = .identifier :=
  if_neg fun hmem => h ((mem_keywords_iff word).1 (List.contains_iff_mem.1 hmem))

/-- A reserved word is written in letters. -/
theorem Reserved.exists_letters {word : List Byte} (h : Reserved word) :
    ∃ first more, word = first :: more ∧ isLetter first = true
      ∧ ∀ b ∈ more, isWordByte b = true := by
  rcases h with rfl | rfl | rfl
  · exact ⟨_, _, rfl, rfl, List.all_eq_true.1 rfl⟩
  · exact ⟨_, _, rfl, rfl, List.all_eq_true.1 rfl⟩
  · exact ⟨_, _, rfl, rfl, List.all_eq_true.1 rfl⟩

/-! ## Writing tokens down -/

/-- The token as it stands in a source. -/
def spell (token : Token) : List Byte :=
  match token.kind with
  | .number | .keyword | .identifier | .delimiter => token.value
  | .comment => hash :: token.value
  | .string => quote :: (token.value ++ [quote])

/-- The tokens, each on a line of its own. -/
def render (tokens : List Token) : List Byte :=
  tokens.flatMap fun token => spell token ++ [Byte.lineFeed]

theorem render_cons (token : Token) (tokens : List Token) :
    render (token :: tokens) = spell token ++ Byte.lineFeed :: render tokens := by
  rw [render, List.flatMap_cons, List.append_assoc]
  rfl

/-- What is written down ends with a line feed. -/
theorem lineFeed_suffix_render {tokens : List Token} (hne : tokens ≠ []) :
    [Byte.lineFeed] <:+ render tokens := by
  obtain ⟨init, token, rfl⟩ := (List.eq_nil_or_concat tokens).resolve_left hne
  rw [render, List.concat_eq_append, List.flatMap_append, List.flatMap_singleton,
    ← List.append_assoc]
  exact List.suffix_append _ _

/-! ## Reading well-formed tokens -/

/-- In front of a line feed, a well-formed token is a lexeme. -/
theorem WellFormed.lexeme {token : Token} (h : WellFormed token) (rest : List Byte) :
    Lexeme (spell token) token (Byte.lineFeed :: rest) := by
  -- no run goes on over the line feed
  have hstop {test : Byte → Bool} (htest : test Byte.lineFeed = false) :
      ∀ b ∈ (Byte.lineFeed :: rest).head?, test b = false := by
    intro b hb
    obtain rfl := Option.some.inj hb
    exact htest
  cases h with
  | @number digits hne hdigits =>
    obtain ⟨first, more, rfl⟩ := List.exists_cons_of_ne_nil hne
    obtain ⟨hfirst, hmore⟩ := List.forall_mem_cons.1 hdigits
    exact .number hfirst hmore (hstop rfl)
  | @keyword word hreserved =>
    obtain ⟨first, more, rfl, hfirst, hmore⟩ := hreserved.exists_letters
    have hlexeme := Lexeme.word hfirst hmore (hstop rfl)
    rw [wordKind_of_reserved hreserved] at hlexeme
    exact hlexeme
  | @identifier first more hfirst hmore hreserved =>
    have hmore' : ∀ b ∈ more, isWordByte b = true := by
      intro b hb
      rw [isWordByte_eq]
      exact hmore b hb
    have hlexeme := Lexeme.word hfirst hmore' (hstop rfl)
    rw [wordKind_of_not_reserved hreserved] at hlexeme
    exact hlexeme
  | delimiter hsign => exact .delimiter _ hsign
  | comment hbody => exact .comment hbody fun b hb => (Option.some.inj hb).symm
  | string hbody => exact .string _ hbody

/-- Well-formed tokens are read as they were written down. -/
theorem reading_render {tokens : List Token} (h : ∀ token ∈ tokens, WellFormed token) :
    Reading (render tokens) [] tokens := by
  induction tokens with
  | nil => exact .stop fun b hb => nomatch hb
  | cons token tokens ih =>
    obtain ⟨htoken, htokens⟩ := List.forall_mem_cons.1 h
    have hrest : Reading (Byte.lineFeed :: render tokens) [] tokens := .blank rfl (ih htokens)
    rw [render_cons]
    refine .lexeme ?_ hrest
    rw [List.append_nil]
    exact htoken.lexeme (render tokens)

/-! ## The tokens that can be read -/

/-- The token of a lexeme is well formed, or the lexeme is a string that the source cuts off
    behind a backslash. -/
theorem Lexeme.wellFormed_or_cut {used left : List Byte} {token : Token}
    (h : Lexeme used token left) :
    WellFormed token ∨ left = [] ∧ [backslash] <:+ used
      ∧ ∃ body, StringBody body ∧ token = ⟨.string, body ++ [backslash]⟩ := by
  cases h with
  | number hfirst hmore =>
    exact .inl (.number (List.cons_ne_nil _ _) (List.forall_mem_cons.2 ⟨hfirst, hmore⟩))
  | @word first more _ hfirst hmore =>
    have hmore' : ∀ b ∈ more, (isLetter b || isDigit b) = true := by
      intro b hb
      rw [← isWordByte_eq]
      exact hmore b hb
    by_cases hreserved : Reserved (first :: more)
    · rw [wordKind_of_reserved hreserved]
      exact .inl (.keyword hreserved)
    · rw [wordKind_of_not_reserved hreserved]
      exact .inl (.identifier hfirst hmore' hreserved)
  | delimiter _ hsign => exact .inl (.delimiter hsign)
  | comment hbody => exact .inl (.comment hbody)
  | string _ hbody => exact .inl (.string hbody)
  | unclosed hbody => exact .inl (.string hbody)
  | @cut body hbody => exact .inr ⟨rfl, List.suffix_append (quote :: body) _, body, hbody, rfl⟩

/-- Where nothing is read, there is no token. -/
theorem Reading.tokens_eq_nil {left : List Byte} {tokens : List Token}
    (h : Reading [] left tokens) : tokens = [] := by
  generalize hread : ([] : List Byte) = read at h
  cases h with
  | stop => rfl
  | blank => exact nomatch hread
  | lexeme hlexeme hrest =>
    obtain ⟨category, first, more, rfl, -⟩ := hlexeme.run_dispatch []
    exact nomatch hread

/-- The tokens of a reading are well formed, or the last one is cut off, and then everything is
    read and ends with the backslash. -/
theorem Reading.wellFormed_or_cutOff {read left : List Byte} {tokens : List Token}
    (h : Reading read left tokens) :
    (∀ token ∈ tokens, WellFormed token) ∨ CutOff tokens ∧ [backslash] <:+ read := by
  induction h with
  | stop => exact .inl fun token hmem => nomatch hmem
  | @blank b read left tokens hblank hrest ih =>
    rcases ih with hall | ⟨hcut, hends⟩
    · exact .inl hall
    · exact .inr ⟨hcut, hends.trans (List.suffix_cons b read)⟩
  | @lexeme used read left token tokens hlexeme hrest ih =>
    rcases hlexeme.wellFormed_or_cut with htoken | ⟨hended, hends, body, hbody, rfl⟩
    · rcases ih with hall | ⟨hcut, hends⟩
      · exact .inl (List.forall_mem_cons.2 ⟨htoken, hall⟩)
      · exact .inr ⟨.cons htoken hcut, hends.trans (List.suffix_append used read)⟩
    · -- the source has ended, so nothing is read behind the string
      obtain ⟨rfl, rfl⟩ := List.append_eq_nil_iff.1 hended
      obtain rfl := hrest.tokens_eq_nil
      rw [List.append_nil]
      exact .inr ⟨.last hbody, hends⟩

/-! ## There and back -/

/-- Well-formed tokens survive being written down. -/
theorem tokenize_render {tokens : List Token} (h : ∀ token ∈ tokens, WellFormed token) :
    tokenizer.tokenize (render tokens) = .ok tokens :=
  tokenize_eq_ok_iff.2 (reading_render h)

/-- Cut-off tokens do not: what they are written as ends with a line feed. -/
theorem CutOff.tokenize_render_ne {tokens : List Token} (h : CutOff tokens) :
    tokenizer.tokenize (render tokens) ≠ .ok tokens := by
  intro hok
  obtain ⟨token, hmem, hnot⟩ := h.exists_not_wellFormed
  rcases (tokenize_eq_ok_iff.1 hok).wellFormed_or_cutOff with hall | ⟨-, hends⟩
  · exact hnot (hall token hmem)
  · have hlines := lineFeed_suffix_render (List.ne_nil_of_mem hmem)
    have hsame : [backslash] <:+ [Byte.lineFeed] :=
      List.suffix_of_suffix_length_le hends hlines (Nat.le_refl 1)
    exact absurd (hsame.eq_of_length rfl) (by decide)

/-- **Round trip.**  Well-formed tokens are read back as they were written.  The other way round,
    whatever the tokenizer gives is well formed, except that the last token may be a string with
    an unpaired backslash at its end; and without such a backslash, and only then, writing the
    tokens down and reading them again gives them back. -/
theorem render_roundTrip :
    (∀ tokens, (∀ token ∈ tokens, WellFormed token) →
        tokenizer.tokenize (render tokens) = .ok tokens)
      ∧ ∀ source tokens, tokenizer.tokenize source = .ok tokens →
        ((∀ token ∈ tokens, WellFormed token) ∨ CutOff tokens)
          ∧ (tokenizer.tokenize (render tokens) = .ok tokens ↔ ¬ CutOff tokens) := by
  refine ⟨fun tokens h => tokenize_render h, fun source tokens hok => ?_⟩
  rcases (tokenize_eq_ok_iff.1 hok).wellFormed_or_cutOff with hall | ⟨hcut, -⟩
  · have hnot : ¬ CutOff tokens := by
      intro hcut
      obtain ⟨token, hmem, hbad⟩ := hcut.exists_not_wellFormed
      exact hbad (hall token hmem)
    exact ⟨.inl hall, fun _ => hnot, fun _ => tokenize_render hall⟩
  · exact ⟨.inr hcut, fun hback => (hcut.tokenize_render_ne hback).elim,
      fun hnot => (hnot hcut).elim⟩

/-- A keyword, a word that only begins with it, a string that keeps a quote, and a comment that
    holds one. -/
def quotedTokens : List Token :=
  [⟨.keyword, [0x6c, 0x65, 0x74]⟩, ⟨.identifier, [0x6c, 0x65, 0x74, 0x73]⟩,
    ⟨.string, [0x5c, 0x22]⟩, ⟨.comment, [0x22]⟩]

-- these tokens, written down line by line and read from a single line without one at its end; and
-- a string that is only a backslash, which is lost on the way back
theorem render_roundTrip_quotedTokens :
    tokenizer.tokenize (render quotedTokens) = .ok quotedTokens
      ∧ tokenizer.tokenize [0x6c, 0x65, 0x74, 0x20, 0x6c, 0x65, 0x74, 0x73, 0x22, 0x5c, 0x22, 0x22,
          0x23, 0x22] = .ok quotedTokens
      ∧ tokenizer.tokenize [0x22, 0x5c] = .ok [⟨.string, [0x5c]⟩]
      ∧ tokenizer.tokenize (render [⟨.string, [0x5c]⟩]) ≠ .ok [⟨.string, [0x5c]⟩] := by
  have hwf : ∀ token ∈ quotedTokens, WellFormed token := by
    intro token hmem
    simp only [quotedTokens, List.mem_cons, List.not_mem_nil, or_false] at hmem
    rcases hmem with rfl | rfl | rfl | rfl
    · exact .keyword (.inl rfl)
    · exact .identifier rfl (List.all_eq_true.1 rfl) (by unfold Reserved; decide)
    · exact .string (.pair rfl rfl .nil)
    · exact .comment (by decide)
  have hline : tokenizer.tokenize [0x6c, 0x65, 0x74, 0x20, 0x6c, 0x65, 0x74, 0x73, 0x22, 0x5c, 0x22,
      0x22, 0x23, 0x22] = .ok quotedTokens := by cbv
  have hcut : tokenizer.tokenize [0x22, 0x5c] = .ok [⟨.string, [0x5c]⟩] := by cbv
  refine ⟨render_roundTrip.1 quotedTokens hwf, hline, hcut, fun hback => ?_⟩
  exact (render_roundTrip.2 [0x22, 0x5c] _ hcut).2.1 hback (CutOff.last .nil)

end ByteTokenizer.Program.Language
