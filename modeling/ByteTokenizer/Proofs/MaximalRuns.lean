/-
  MAXIMAL RUNS: tokenizers whose patterns take one byte or a run.

  If no byte opens a string or a comment, and each of the other categories has one pattern, which
  takes one byte or a run of just the bytes of its category, then tokenizing is grouping: one
  token for each maximal run where the pattern takes runs, one for each byte where it takes one,
  and none for what is ignored (`tokens_are_maximal_runs`).  Which bytes are of a category is a
  matter of the alphabet's priorities; the tests themselves may overlap.

  It follows that runs of one category come back one by one when they have been put together with
  one ignored byte between them (`Grouping.Spaced`).
-/
import ByteTokenizer.Proofs.Rule.Pattern
import ByteTokenizer.Proofs.Tokenizer.Grouping

namespace ByteTokenizer

open Cursor (between)

/-! ## Spaced runs -/

/-- The content is the runs of bytes of the category, one ignored byte behind each but perhaps the
    last. -/
inductive Grouping.Spaced (g : Grouping) (category : Category) :
    (runs : List (List Byte)) → (content : List Byte) → Prop where
  | nil : Spaced g category [] []
  | last {run : List Byte} (hne : run ≠ [])
      (hrun : ∀ b ∈ run, g.alphabet.classify b = some (.opens category)) :
      Spaced g category [run] run
  | cons {run content : List Byte} {runs : List (List Byte)} {separator : Byte} (hne : run ≠ [])
      (hrun : ∀ b ∈ run, g.alphabet.classify b = some (.opens category))
      (hseparator : g.alphabet.classify separator = some .ignored)
      (hrest : Spaced g category runs content) :
      Spaced g category (run :: runs) (run ++ separator :: content)

namespace Grouping.Spaced

variable {g : Grouping} {category : Category} {runs : List (List Byte)} {content : List Byte}

/-- Such a content begins with a byte of the category, if it is not empty. -/
theorem head (h : g.Spaced category runs content) :
    ∀ b ∈ content.head?, g.alphabet.classify b = some (.opens category) := by
  have hhead : ∀ {run : List Byte} (rest : List Byte), run ≠ [] →
      (∀ b ∈ run, g.alphabet.classify b = some (.opens category)) →
      ∀ b ∈ (run ++ rest).head?, g.alphabet.classify b = some (.opens category) := by
    intro run rest hne hrun b hb
    rw [List.head?_append_of_ne_nil run hne] at hb
    exact hrun b (List.mem_of_mem_head? hb)
  cases h with
  | nil => exact fun b hb => nomatch hb
  | last hne hrun => exact List.append_nil content ▸ hhead [] hne hrun
  | cons hne hrun hseparator hrest => exact hhead _ hne hrun

/-- All bytes have a class, and the runs are what the grouping joins. -/
theorem tokens_eq (h : g.Spaced category runs content) (hjoins : g.joins category = true) :
    (∀ b ∈ content, g.alphabet.classify b ≠ none)
      ∧ g.tokens content = runs.map fun run => ⟨g.kind category, run⟩ := by
  have hknown : ∀ {run : List Byte},
      (∀ b ∈ run, g.alphabet.classify b = some (.opens category)) →
      ∀ b ∈ run, g.alphabet.classify b ≠ none := by
    intro run hrun b hb
    rw [hrun b hb]
    exact Option.some_ne_none _
  induction h with
  | nil => exact ⟨fun b hb => (nomatch hb), rfl⟩
  | @last run hne hrun =>
    refine ⟨hknown hrun, ?_⟩
    rw [g.tokens_run hne hrun, g.tokensOf_joined hjoins hne hrun]
    rfl
  | @cons run content runs separator hne hrun hseparator hrest ih =>
    obtain ⟨hcontent, htokens⟩ := ih
    constructor
    · refine List.forall_mem_append.2 ⟨hknown hrun, List.forall_mem_cons.2 ⟨?_, hcontent⟩⟩
      rw [hseparator]
      exact Option.some_ne_none _
    · have hbehind : ∀ b ∈ (separator :: content).head?,
          g.alphabet.classify b ≠ some (.opens category) := by
        simp [hseparator]
      have hbetween : ∀ b ∈ content.head?, g.alphabet.classify b ≠ some .ignored := by
        intro b hb
        simp [hrest.head b hb]
      have hignored : ∀ b ∈ [separator], g.alphabet.classify b = some .ignored := by
        simpa using hseparator
      have hskip := g.tokens_append (List.cons_ne_nil separator []) hignored hbetween
      rw [g.tokensOf_ignored hignored] at hskip
      rw [g.tokens_append hne hrun hbehind, g.tokensOf_joined hjoins hne hrun, List.map_cons,
        ← htokens]
      exact congrArg (_ :: ·) hskip

/-- Runs that are joined with one ignored byte are spaced. -/
theorem of_intercalate {separator : Byte}
    (hseparator : g.alphabet.classify separator = some .ignored)
    (hruns : ∀ run ∈ runs, run ≠ [] ∧ ∀ b ∈ run, g.alphabet.classify b = some (.opens category)) :
    g.Spaced category runs ([separator].intercalate runs) := by
  induction runs with
  | nil => exact .nil
  | cons run runs ih =>
    obtain ⟨hfirst, hrest⟩ := List.forall_mem_cons.1 hruns
    cases runs with
    | nil =>
      rw [List.intercalate_singleton]
      exact .last hfirst.1 hfirst.2
    | cons next runs =>
      rw [List.intercalate_cons_cons, List.append_assoc]
      exact .cons hfirst.1 hfirst.2 hseparator (ih hrest)

end Grouping.Spaced

/-! ## Grouping by patterns -/

/-- The tokenizer has patterns for numbers, identifiers and delimiters, and only they come up. -/
structure Tokenizer.GroupsBy (t : Tokenizer) (pattern : Category → Pattern) : Prop where
  /-- No byte opens a string or a comment. -/
  unmarked : ∀ b category, t.alphabet.classify b = some (.opens category) →
    category ≠ .string ∧ category ≠ .comment
  /-- Each of the other categories has one rule, which is that of its pattern. -/
  rules : ∀ category, category ≠ .string → category ≠ .comment →
    t.rules category = [(pattern category).rule]
  /-- The pattern takes one byte, or a run of just those bytes that open the category. -/
  shape : ∀ category, category ≠ .string → category ≠ .comment →
    (pattern category).shape = .single
      ∨ ∃ test, (pattern category).shape.run? = some test
        ∧ ∀ b, test b = true ↔ t.alphabet.classify b = some (.opens category)

/-- The grouping of patterns: those that take runs join. -/
def Grouping.ofPatterns (alphabet : Alphabet) (pattern : Category → Pattern) : Grouping where
  alphabet := alphabet
  kind category := (pattern category).kind
  joins category := (pattern category).shape.run?.isSome

namespace Tokenizer.GroupsBy

variable {t : Tokenizer} {pattern : Category → Pattern} (h : t.GroupsBy pattern)
include h

/-- A dispatch at a byte of the category takes what the pattern puts into the body. -/
theorem run_dispatch {category : Category} {b : Byte}
    (hb : t.alphabet.classify b = some (.opens category)) {body left : List Byte}
    (hsplit : (pattern category).shape.split (body ++ left) = { body }) (before : List Byte) :
    (t.dispatch category).run (between before (body ++ left))
      = ([⟨(pattern category).kind, body⟩], between (before ++ body) left) := by
  obtain ⟨hstring, hcomment⟩ := h.unmarked b category hb
  have hmarker : category.hasMarker = false := by
    cases category with
    | string => exact absurd rfl hstring
    | comment => exact absurd rfl hcomment
    | number | identifier | delimiter => rfl
  refine run_dispatch_of_rules (h.rules category hstring hcomment) ?_
  rw [hmarker, if_neg Bool.false_ne_true]
  exact Pattern.run_rule_bare hsplit before

/-- Patterns dispatch as their grouping says. -/
theorem follows : t.Follows (.ofPatterns t.alphabet pattern) where
  alphabet := rfl
  joined := by
    intro category hjoins run rest hne hrun hstop before
    obtain ⟨b, hb⟩ := List.exists_mem_of_ne_nil run hne
    refine h.run_dispatch (hrun b hb) ?_ before
    obtain ⟨hstring, hcomment⟩ := h.unmarked b category (hrun b hb)
    rcases h.shape category hstring hcomment with hsingle | ⟨test, hshape, htest⟩
    · have hrun? : (pattern category).shape.run?.isSome = true := hjoins
      rw [hsingle] at hrun?
      exact nomatch hrun?
    · have hbody : ∀ b ∈ run, test b = true := fun b hb => (htest b).2 (hrun b hb)
      have hend : ∀ b ∈ rest.head?, test b = false := by
        intro b hb
        exact Bool.eq_false_iff.2 fun htrue => hstop b hb ((htest b).1 htrue)
      exact Shape.split_append_of_run? hshape hbody hend
  single := by
    intro category hjoins b hb before rest
    show (t.dispatch category).run (between before ([b] ++ rest)) = _
    refine h.run_dispatch hb ?_ before
    obtain ⟨hstring, hcomment⟩ := h.unmarked b category hb
    rcases h.shape category hstring hcomment with hsingle | ⟨test, hshape, -⟩
    · rw [hsingle]
      rfl
    · have hrun? : (pattern category).shape.run?.isSome = false := hjoins
      rw [hshape] at hrun?
      exact nomatch hrun?

end Tokenizer.GroupsBy

/-- **The tokens are the maximal runs.**  If the tokenizer groups by patterns, then it gives
    tokens exactly if all bytes of the content have a class, and these are the tokens of the
    maximal runs; otherwise it gives the failure at the first byte without a class.  Runs of one
    category that are spaced by ignored bytes come back one by one. -/
theorem tokens_are_maximal_runs {t : Tokenizer} {pattern : Category → Pattern}
    (h : t.GroupsBy pattern) (content : List Byte) :
    (∀ tokens, t.tokenize content = .ok tokens
        ↔ (∀ b ∈ content, t.alphabet.classify b ≠ none)
          ∧ tokens = (Grouping.ofPatterns t.alphabet pattern).tokens content)
      ∧ (∀ failure, t.tokenize content = .error failure
        ↔ ∃ before b rest, content = before ++ b :: rest
          ∧ (∀ b' ∈ before, t.alphabet.classify b' ≠ none) ∧ t.alphabet.classify b = none
          ∧ failure = .unexpectedByte b (.ofOffset content before.length))
      ∧ ∀ category runs, (pattern category).shape.run?.isSome = true →
        (Grouping.ofPatterns t.alphabet pattern).Spaced category runs content →
        t.tokenize content = .ok (runs.map fun run => ⟨(pattern category).kind, run⟩) := by
  refine ⟨fun tokens => h.follows.tokenize_eq_ok_iff,
    fun failure => h.follows.tokenize_eq_error_iff, fun category runs hjoins hspaced => ?_⟩
  obtain ⟨hknown, htokens⟩ := hspaced.tokens_eq hjoins
  exact h.follows.tokenize_eq_ok_iff.2 ⟨hknown, htokens.symm⟩

/-- Tests that overlap: five to nine are also letters, and the blank is also a delimiter. -/
def overlapping : Alphabet where
  numbers := .digits
  letters := .interval 0x35 0x62
  delimiters := .listed [0x20, 0x2d]
  ignored := .listed [0x20]

/-- Patterns for what the tests come to: runs of digits, runs of letters that are not digits,
    and single delimiters. -/
def overlappingPattern : Category → Pattern
  | .number => ⟨.number, .rangeRun .digits .never⟩
  | .identifier => ⟨.keyword, .rangeRun (.interval 0x3a 0x61) (.listed [0x62])⟩
  | .delimiter => ⟨.delimiter, .single⟩
  | .string => ⟨.string, .line⟩
  | .comment => ⟨.comment, .line⟩

-- 78, blank, 9Ab, two minuses; then 7 with a byte behind it that has no class; and digits with
-- blanks between them, whatever they are
theorem tokens_are_maximal_runs_overlapping :
    (Tokenizer.ofPatterns overlapping fun c => [overlappingPattern c]).GroupsBy overlappingPattern
      ∧ (Tokenizer.ofPatterns overlapping fun c => [overlappingPattern c]).tokenize
          [0x37, 0x38, 0x20, 0x39, 0x41, 0x62, 0x2d, 0x2d]
        = .ok [⟨.number, [0x37, 0x38]⟩, ⟨.number, [0x39]⟩, ⟨.keyword, [0x41, 0x62]⟩,
          ⟨.delimiter, [0x2d]⟩, ⟨.delimiter, [0x2d]⟩]
      ∧ (Tokenizer.ofPatterns overlapping fun c => [overlappingPattern c]).tokenize [0x37, 0x2e]
        = .error (.unexpectedByte 0x2e ⟨1, 2, 1⟩)
      ∧ ∀ runs : List (List Byte),
        (∀ run ∈ runs, run ≠ [] ∧ ∀ b ∈ run, overlapping.classify b = some (.opens .number)) →
        (Tokenizer.ofPatterns overlapping fun c => [overlappingPattern c]).tokenize
            ([0x20].intercalate runs)
          = .ok (runs.map fun run => ⟨.number, run⟩) := by
  have hgroups : (Tokenizer.ofPatterns overlapping fun c => [overlappingPattern c]).GroupsBy
      overlappingPattern := by
    have hunmarked := Byte.forall_of_all
      (p := fun b => overlapping.classify b ≠ some (.opens .string)
        ∧ overlapping.classify b ≠ some (.opens .comment)) (by decide +kernel)
    refine ⟨fun b category hb => ⟨?_, ?_⟩, fun category _ _ => rfl, fun category hs hc => ?_⟩
    · rintro rfl
      exact (hunmarked b).1 hb
    · rintro rfl
      exact (hunmarked b).2 hb
    · cases category with
      | number => exact .inr ⟨_, rfl, Byte.forall_of_all (by decide +kernel)⟩
      | identifier => exact .inr ⟨_, rfl, Byte.forall_of_all (by decide +kernel)⟩
      | delimiter => exact .inl rfl
      | string => exact absurd rfl hs
      | comment => exact absurd rfl hc
  refine ⟨hgroups, ?_, ?_, fun runs hruns => ?_⟩
  · refine ((tokens_are_maximal_runs hgroups _).1 _).2 ⟨by decide +kernel, by decide +kernel⟩
  · refine ((tokens_are_maximal_runs hgroups _).2.1 _).2
      ⟨[0x37], 0x2e, [], rfl, by decide +kernel, by decide +kernel, by decide +kernel⟩
  · exact (tokens_are_maximal_runs hgroups _).2.2 .number runs rfl
      (.of_intercalate (by decide +kernel) hruns)

end ByteTokenizer
