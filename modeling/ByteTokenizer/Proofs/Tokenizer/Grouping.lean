/-
  GROUPINGS: splitting a content into runs of bytes of one class.

  A `Grouping` says what becomes of a maximal run of adjacent bytes that the alphabet classifies
  alike.  If the run opens a category, it makes one token, or one token for each of its bytes,
  and if it is ignored it makes none.  `Grouping.tokens` cuts a content into such runs and puts
  their tokens together; it knows of no cursor and of no rule.

  1. A content is a list of maximal runs (`runs_induction`), and the tokens of a content are those
     of its first run and then those of the rest (`Grouping.tokens_append`).

  2. A tokenizer follows a grouping if each of its dispatches takes what the grouping says
     (`Tokenizer.Follows`).  Run by run (`Follows.result_run`) it then gives the tokens of the
     grouping as far as the bytes have a class (`Follows.result_known`).

  3. What comes behind these bytes decides the result: the end, or a byte without a class, and
     nothing else (`Follows.tokenize_cases`).
-/
import ByteTokenizer.Proofs.Rule.Pattern
import ByteTokenizer.Proofs.Tokenizer.Head
import Mathlib.Data.List.SplitBy

namespace ByteTokenizer

open Cursor (between)

/-! ## Maximal runs -/

/-- Induction over a list by its maximal runs of elements of one class. -/
theorem runs_induction {α β : Type} [DecidableEq β] (classOf : α → β) {motive : List α → Prop}
    (nil : motive [])
    (run : ∀ class' run rest, run ≠ [] → (∀ a ∈ run, classOf a = class') →
      (∀ a ∈ rest.head?, classOf a ≠ class') → motive rest → motive (run ++ rest))
    (list : List α) : motive list := by
  induction hlen : list.length using Nat.strongRecOn generalizing list with
  | ind k ih =>
    cases list with
    | nil => exact nil
    | cons a list =>
      obtain ⟨more, rest, rfl, hmore, hstop⟩ :=
        exists_accepted_run (fun a' => decide (classOf a' = classOf a)) list
      have hlt : rest.length < k := by
        rw [List.length_cons, List.length_append] at hlen
        omega
      exact run (classOf a) (a :: more) rest (List.cons_ne_nil a more)
        (List.forall_mem_cons.2 ⟨rfl, fun a' ha' => of_decide_eq_true (hmore a' ha')⟩)
        (fun a' ha' => of_decide_eq_false (hstop a' ha')) (ih rest.length hlt rest rfl)

/-- How a tokenizer makes tokens of runs. -/
structure Grouping where
  alphabet : Alphabet
  /-- The kind of the tokens of a category. -/
  kind : Category → Kind
  /-- Whether a run of bytes of the category makes one token. -/
  joins : Category → Bool

namespace Grouping

/-- The maximal runs of adjacent bytes of one class. -/
def runs (g : Grouping) (content : List Byte) : List (List Byte) :=
  content.splitBy fun b b' => decide (g.alphabet.classify b = g.alphabet.classify b')

/-- The tokens of a run whose bytes have the class of its first byte. -/
def tokensOf (g : Grouping) : List Byte → List Token
  | [] => []
  | b :: run =>
    match g.alphabet.classify b with
    | some (.opens category) =>
      if g.joins category then [⟨g.kind category, b :: run⟩]
      else (b :: run).map fun b' => ⟨g.kind category, [b']⟩
    | _ => []

/-- The tokens of a content: those of its runs, in their order. -/
def tokens (g : Grouping) (content : List Byte) : List Token := (g.runs content).flatMap g.tokensOf

variable {g : Grouping} {run rest : List Byte}

theorem tokens_nil : g.tokens [] = [] := rfl

theorem runs_append {meaning : Option ByteMeaning} (hne : run ≠ [])
    (hrun : ∀ b ∈ run, g.alphabet.classify b = meaning)
    (hstop : ∀ b ∈ rest.head?, g.alphabet.classify b ≠ meaning) :
    g.runs (run ++ rest) = run :: g.runs rest := by
  have hfirst : g.runs run = [run] := by
    refine List.splitBy_of_isChain hne (List.Pairwise.isChain ?_)
    refine List.pairwise_of_forall_mem_list fun b hb b' hb' => ?_
    exact decide_eq_true ((hrun b hb).trans (hrun b' hb').symm)
  have hbehind : ∀ b ∈ run.getLast?, ∀ b' ∈ rest.head?,
      decide (g.alphabet.classify b = g.alphabet.classify b') = false := by
    intro b hb b' hb'
    refine decide_eq_false fun heq => hstop b' hb' ?_
    rw [← heq]
    exact hrun b (List.mem_of_mem_getLast? hb)
  have happend := List.splitBy_append hbehind
  rw [← runs, ← runs, ← runs, hfirst] at happend
  exact happend

/-- The tokens of the first run come first. -/
theorem tokens_append {meaning : Option ByteMeaning} (hne : run ≠ [])
    (hrun : ∀ b ∈ run, g.alphabet.classify b = meaning)
    (hstop : ∀ b ∈ rest.head?, g.alphabet.classify b ≠ meaning) :
    g.tokens (run ++ rest) = g.tokensOf run ++ g.tokens rest := by
  rw [tokens, runs_append hne hrun hstop, List.flatMap_cons]
  rfl

/-- The tokens of a content that is one run. -/
theorem tokens_run {meaning : Option ByteMeaning} (hne : run ≠ [])
    (hrun : ∀ b ∈ run, g.alphabet.classify b = meaning) : g.tokens run = g.tokensOf run := by
  have hend : ∀ b ∈ ([] : List Byte).head?, g.alphabet.classify b ≠ meaning := by simp
  have happend := tokens_append hne hrun hend
  rwa [List.append_nil, tokens_nil, List.append_nil] at happend

/-- Ignored bytes make no tokens. -/
theorem tokensOf_ignored (hrun : ∀ b ∈ run, g.alphabet.classify b = some .ignored) :
    g.tokensOf run = [] := by
  cases run with
  | nil => rfl
  | cons b run => rw [tokensOf, hrun b List.mem_cons_self]

/-- A run of a category that joins makes one token. -/
theorem tokensOf_joined {category : Category} (hjoins : g.joins category = true) (hne : run ≠ [])
    (hrun : ∀ b ∈ run, g.alphabet.classify b = some (.opens category)) :
    g.tokensOf run = [⟨g.kind category, run⟩] := by
  cases run with
  | nil => exact absurd rfl hne
  | cons b run =>
    rw [tokensOf, hrun b List.mem_cons_self]
    exact if_pos hjoins

/-- A run of another category makes one token for each byte. -/
theorem tokensOf_single {category : Category} (hjoins : g.joins category = false)
    (hrun : ∀ b ∈ run, g.alphabet.classify b = some (.opens category)) :
    g.tokensOf run = run.map fun b => ⟨g.kind category, [b]⟩ := by
  cases run with
  | nil => rfl
  | cons b run =>
    rw [tokensOf, hrun b List.mem_cons_self]
    exact if_neg (by simp [hjoins])

end Grouping

/-! ## Following a grouping -/

/-- The dispatches of the tokenizer take what the grouping says. -/
structure Tokenizer.Follows (t : Tokenizer) (g : Grouping) : Prop where
  alphabet : t.alphabet = g.alphabet
  /-- A dispatch of a category that joins takes a maximal run. -/
  joined : ∀ {category}, g.joins category = true → ∀ {run rest : List Byte}, run ≠ [] →
    (∀ b ∈ run, g.alphabet.classify b = some (.opens category)) →
    (∀ b ∈ rest.head?, g.alphabet.classify b ≠ some (.opens category)) → ∀ before,
    (t.dispatch category).run (between before (run ++ rest))
      = ([⟨g.kind category, run⟩], between (before ++ run) rest)
  /-- A dispatch of another category takes one byte. -/
  single : ∀ {category}, g.joins category = false → ∀ {b : Byte},
    g.alphabet.classify b = some (.opens category) → ∀ before rest,
    (t.dispatch category).run (between before (b :: rest))
      = ([⟨g.kind category, [b]⟩], between (before ++ [b]) rest)

/-- Tokens in front of tokens in front of a result. -/
theorem map_append_map_append {ε α : Type} (first second : List α) (r : Except ε (List α)) :
    (r.map (second ++ ·)).map (first ++ ·) = r.map (first ++ second ++ ·) := by
  cases r with
  | error e => rfl
  | ok tokens => exact congrArg Except.ok (List.append_assoc ..).symm

/-- A run over bytes of which each has a turn of its own. -/
theorem Tokenizer.result_bytes {t : Tokenizer} (run : List Byte) (one : Byte → List Token)
    (hrun : ∀ b ∈ run, ∀ before rest, ∃ dispatch,
      t.TurnsTo before (b :: rest) (.onward dispatch (between (before ++ [b]) rest))
        ∧ dispatch.toList.flatMap (·.tokens) = one b)
    (before rest : List Byte) :
    (t.runFrom (between before (run ++ rest))).result
      = (t.runFrom (between (before ++ run) rest)).result.map (run.flatMap one ++ ·) := by
  induction run generalizing before with
  | nil =>
    rw [List.append_nil]
    exact (congrFun Except.map_id _).symm
  | cons b run ih =>
    obtain ⟨dispatch, hturns, hone⟩ := hrun b List.mem_cons_self before (run ++ rest)
    have hrest := ih (fun b' hb' => hrun b' (List.mem_cons_of_mem b hb')) (before ++ [b])
    rw [List.cons_append, result_of_onward hturns.turn_eq, hrest, hone, map_append_map_append,
      List.append_assoc]
    rfl

namespace Tokenizer.Follows

variable {t : Tokenizer} {g : Grouping} (h : t.Follows g)
include h

/-- A run over a maximal run of bytes that have a class gives its tokens first. -/
theorem result_run {meaning : ByteMeaning} {run rest : List Byte} (hne : run ≠ [])
    (hrun : ∀ b ∈ run, g.alphabet.classify b = some meaning)
    (hstop : ∀ b ∈ rest.head?, g.alphabet.classify b ≠ some meaning) (before : List Byte) :
    (t.runFrom (between before (run ++ rest))).result
      = (t.runFrom (between (before ++ run) rest)).result.map (g.tokensOf run ++ ·) := by
  cases meaning with
  | ignored =>
    have hbytes := t.result_bytes run (fun _ => [])
      (fun b hb before rest => ⟨none, .ignored (h.alphabet ▸ hrun b hb), rfl⟩) before rest
    have hnone : run.flatMap (fun _ => ([] : List Token)) = [] :=
      List.flatMap_eq_nil_iff.2 fun _ _ => rfl
    rw [hbytes, g.tokensOf_ignored hrun, hnone]
  | opens category =>
    cases hjoins : g.joins category with
    | true =>
      obtain ⟨b, more, rfl⟩ := List.exists_cons_of_ne_nil hne
      have hturns := TurnsTo.dispatched (h.alphabet ▸ hrun b List.mem_cons_self) rfl
        (h.joined hjoins hne hrun hstop before)
      rw [List.cons_append, result_of_onward hturns.turn_eq, g.tokensOf_joined hjoins hne hrun]
      rfl
    | false =>
      have hbytes := t.result_bytes run (fun b => [⟨g.kind category, [b]⟩])
        (fun b hb before rest => ⟨_, .dispatched (h.alphabet ▸ hrun b hb) rfl
          (h.single hjoins (hrun b hb) before rest), rfl⟩) before rest
      rw [hbytes, g.tokensOf_single hjoins hrun, List.map_eq_flatMap]

/-- As far as the bytes have a class, a run gives the tokens of the grouping. -/
theorem result_known {known rest : List Byte} (hknown : ∀ b ∈ known, g.alphabet.classify b ≠ none)
    (hstop : ∀ b ∈ rest.head?, g.alphabet.classify b = none) (before : List Byte) :
    (t.runFrom (between before (known ++ rest))).result
      = (t.runFrom (between (before ++ known) rest)).result.map (g.tokens known ++ ·) := by
  induction known using runs_induction g.alphabet.classify generalizing before with
  | nil =>
    rw [List.append_nil]
    exact (congrFun Except.map_id _).symm
  | run class' run more hne hrun hmore ih =>
    obtain ⟨hknownRun, hknownMore⟩ := List.forall_mem_append.1 hknown
    obtain ⟨meaning, rfl⟩ : ∃ meaning, class' = some meaning := by
      obtain ⟨b, hb⟩ := List.exists_mem_of_ne_nil run hne
      rw [← hrun b hb]
      exact Option.ne_none_iff_exists'.1 (hknownRun b hb)
    -- behind the run comes a byte of another class or, if `more` is empty, one without a class
    have hbehind : ∀ b ∈ (more ++ rest).head?, g.alphabet.classify b ≠ some meaning := by
      cases more with
      | nil =>
        intro b hb
        rw [hstop b hb]
        exact (Option.some_ne_none meaning).symm
      | cons b more => exact hmore
    rw [List.append_assoc, h.result_run hne hrun hbehind, ih hknownMore, map_append_map_append,
      g.tokens_append hne hrun hmore, List.append_assoc]

/-- A content whose bytes all have a class gives the tokens of the grouping. -/
theorem tokenize_known {content : List Byte}
    (hknown : ∀ b ∈ content, g.alphabet.classify b ≠ none) :
    t.tokenize content = .ok (g.tokens content) := by
  have hnone : ∀ b ∈ ([] : List Byte).head?, g.alphabet.classify b = none := by simp
  have hresult := h.result_known hknown hnone []
  have hended : t.turn (between content []) = .finished := TurnsTo.ended.turn_eq
  rw [List.append_nil, List.nil_append, runFrom_of_finished hended] at hresult
  rw [tokenize, run, Cursor.advance_fresh, hresult]
  exact congrArg Except.ok (List.append_nil _)

/-- A content gives the failure at its first byte that has no class. -/
theorem tokenize_unknown {known : List Byte} (hknown : ∀ b ∈ known, g.alphabet.classify b ≠ none)
    {b : Byte} (hb : g.alphabet.classify b = none) (rest : List Byte) :
    t.tokenize (known ++ b :: rest) = .error (.unexpectedByte b (.after known)) := by
  have hstop : ∀ b' ∈ (b :: rest).head?, g.alphabet.classify b' = none := by simpa using hb
  have hresult := h.result_known hknown hstop []
  have hunknown : t.turn (between known (b :: rest)) = _ :=
    (TurnsTo.unknown (h.alphabet ▸ hb)).turn_eq
  rw [List.nil_append, runFrom_of_failed hunknown] at hresult
  rw [tokenize, run, Cursor.advance_fresh, hresult]
  rfl

/-- There is a first byte that has no class, or all bytes have one. -/
theorem tokenize_cases (content : List Byte) :
    ((∀ b ∈ content, g.alphabet.classify b ≠ none) ∧ t.tokenize content = .ok (g.tokens content))
      ∨ ∃ before b rest, content = before ++ b :: rest
        ∧ (∀ b' ∈ before, g.alphabet.classify b' ≠ none) ∧ g.alphabet.classify b = none
        ∧ t.tokenize content = .error (.unexpectedByte b (.after before)) := by
  obtain ⟨known, left, rfl, hknown, hstop⟩ :=
    exists_accepted_run (fun b => (g.alphabet.classify b).isSome) content
  have hknown' : ∀ b ∈ known, g.alphabet.classify b ≠ none := by
    intro b hb
    exact Option.isSome_iff_ne_none.1 (hknown b hb)
  cases left with
  | nil =>
    rw [List.append_nil]
    exact .inl ⟨hknown', h.tokenize_known hknown'⟩
  | cons b rest =>
    have hb : g.alphabet.classify b = none := by simpa using hstop b rfl
    exact .inr ⟨known, b, rest, rfl, hknown', hb, h.tokenize_unknown hknown' hb rest⟩

/-- The tokens of the grouping come exactly if all bytes have a class. -/
theorem tokenize_eq_ok_iff {content : List Byte} {tokens : List Token} :
    t.tokenize content = .ok tokens
      ↔ (∀ b ∈ content, g.alphabet.classify b ≠ none) ∧ tokens = g.tokens content := by
  constructor
  · intro hok
    rcases h.tokenize_cases content with ⟨hknown, heq⟩ | ⟨before, b, rest, -, -, -, heq⟩
    · rw [heq] at hok
      exact ⟨hknown, (Except.ok.inj hok).symm⟩
    · rw [heq] at hok
      exact nomatch hok
  · rintro ⟨hknown, rfl⟩
    exact h.tokenize_known hknown

/-- Any failure is that of the first byte that has no class. -/
theorem tokenize_eq_error_iff {content : List Byte} {failure : Failure} :
    t.tokenize content = .error failure
      ↔ ∃ before b rest, content = before ++ b :: rest
        ∧ (∀ b' ∈ before, g.alphabet.classify b' ≠ none) ∧ g.alphabet.classify b = none
        ∧ failure = .unexpectedByte b (.ofOffset content before.length) := by
  constructor
  · intro hfail
    rcases h.tokenize_cases content with ⟨-, heq⟩ | ⟨before, b, rest, rfl, hknown, hb, heq⟩
    · rw [heq] at hfail
      exact nomatch hfail
    · rw [heq, ← Location.ofOffset_append before (b :: rest)] at hfail
      exact ⟨before, b, rest, rfl, hknown, hb, (Except.error.inj hfail).symm⟩
  · rintro ⟨before, b, rest, rfl, hknown, hb, rfl⟩
    rw [Location.ofOffset_append]
    exact h.tokenize_unknown hknown hb rest

end Tokenizer.Follows

end ByteTokenizer
