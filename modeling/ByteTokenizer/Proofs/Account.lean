/-
  THE ACCOUNT OF A RUN: what is noted of a run is what happened in it.

  A tokenization that has content opens its account with the number of bytes, notes every
  dispatch, and closes with the number of tokens or with the failure.  `Dispatch.Holds` says of a
  note that it is so: the byte stands at its place and opens the category, and all rules of the
  category were dispatched and gave a token each.

  1. A turn notes at most one dispatch, that of its own head, and the note holds
     (`TurnsTo.noted_holds`).

  2. A turn that leads onward leads to a greater offset, so the places of the notes ascend and
     stay behind the cursor: that is the invariant `Noted`, which every head has
     (`noted_of_head`).

  3. How the account ends depends on the last turn.  At the end of the content there are as many
     tokens as rules were dispatched; a category that stalls is noted in the turn in which it
     stalls, so its note is the last one; an unexpected byte is noted nowhere, and all notes are
     of places before it (`Failure.Follows`).

  As for progress, nothing is known of the rules but that they advance the cursor.
-/
import ByteTokenizer.Proofs.Tokenizer.Head
import ByteTokenizer.Tokenizer.Event
import Mathlib.Algebra.GroupWithZero.Nat

namespace ByteTokenizer

open Cursor (between)

/-- The account of tokenizing a content that may be absent, with rules that vary. -/
def Varying.events (v : Varying) : Option (List Byte) → List Event
  | none => []
  | some content => (v.run content).events content.length

/-- A plain tokenizer gives the account of its steady case. -/
theorem Varying.events_steady (t : Tokenizer) : t.steady.events = t.events := by
  funext content
  cases content with
  | none => rfl
  | some content => rw [events, run_steady, Tokenizer.events]

/-! ## One note -/

/-- What is noted of the dispatch is so, if each category has the given number of rules. -/
structure Dispatch.Holds (alphabet : Alphabet) (count : Category → Nat) (content : List Byte)
    (d : Dispatch) : Prop where
  inside : d.offset < content.length
  byte_eq : content[d.offset]? = some d.byte
  opens : alphabet.classify d.byte = some (.opens d.category)
  rules_eq : d.rules = count d.category
  length_tokens : d.tokens.length = d.rules

/-- The dispatch that a turn notes, whether it fails or leads onward. -/
def Turn.noted : Turn → Option Dispatch
  | .finished => none
  | .failed dispatch _ => dispatch
  | .onward dispatch _ => dispatch

/-- The note of a dispatch at a head holds. -/
theorem Tokenizer.dispatchAt_holds {t : Tokenizer} {before rest : List Byte} {byte : Byte}
    {category : Category} {tokens : List Token} {next : Cursor}
    (hclass : t.alphabet.classify byte = some (.opens category))
    (hrun : (t.dispatch category).run (between before (byte :: rest)) = (tokens, next)) :
    (t.dispatchAt before byte category tokens).Holds t.alphabet t.ruleCount
      (before ++ byte :: rest) where
  inside := by simp [dispatchAt]
  byte_eq := by simp [dispatchAt]
  opens := hclass
  rules_eq := rfl
  length_tokens := by
    have hlen := t.length_dispatch category (between before (byte :: rest))
    rw [hrun] at hlen
    exact hlen

/-- A turn notes only the dispatch at its own head, and what it notes holds. -/
theorem Tokenizer.TurnsTo.noted_holds {t : Tokenizer} {before ahead : List Byte} {turn : Turn}
    (h : t.TurnsTo before ahead turn) :
    ∀ d ∈ turn.noted, d.offset = before.length
      ∧ d.Holds t.alphabet t.ruleCount (before ++ ahead) := by
  intro d hd
  cases h with
  | ended => exact nomatch hd
  | unknown hclass => exact nomatch hd
  | ignored hclass => exact nomatch hd
  | stalled hclass hrun =>
    obtain rfl := Option.some.inj hd
    exact ⟨rfl, dispatchAt_holds hclass hrun⟩
  | dispatched hclass hrest hrun =>
    obtain rfl := Option.some.inj hd
    exact ⟨rfl, dispatchAt_holds hclass hrun⟩

/-! ## All notes of a run -/

/-- The notes so far, when the cursor stands at the offset. -/
structure Noted (alphabet : Alphabet) (count : Category → Nat) (content : List Byte)
    (dispatches : List Dispatch) (offset : Nat) : Prop where
  ascending : dispatches.Pairwise (·.offset < ·.offset)
  behind : ∀ d ∈ dispatches, d.offset < offset
  holds : ∀ d ∈ dispatches, d.Holds alphabet count content

section Noted

variable {alphabet : Alphabet} {count : Category → Nat} {content : List Byte}
  {dispatches : List Dispatch} {offset offset' : Nat}

theorem Noted.nil : Noted alphabet count content [] 0 :=
  ⟨.nil, fun _ hd => absurd hd List.not_mem_nil, fun _ hd => absurd hd List.not_mem_nil⟩

/-- One more note, of a dispatch at the cursor, or none; then the cursor has to move on. -/
theorem Noted.append (h : Noted alphabet count content dispatches offset)
    {dispatch : Option Dispatch}
    (hnew : ∀ d ∈ dispatch, d.offset = offset ∧ d.Holds alphabet count content)
    (hlt : offset < offset') :
    Noted alphabet count content (dispatches ++ dispatch.toList) offset' where
  ascending := by
    refine List.pairwise_append.2 ⟨h.ascending, ?_, ?_⟩
    · cases dispatch with
      | none => exact .nil
      | some d => exact List.pairwise_singleton _ d
    · intro d hd d' hd'
      rw [(hnew d' (Option.mem_toList.1 hd')).1]
      exact h.behind d hd
  behind := by
    intro d hd
    rcases List.mem_append.1 hd with hold | hd
    · exact Nat.lt_trans (h.behind d hold) hlt
    · rw [(hnew d (Option.mem_toList.1 hd)).1]
      exact hlt
  holds := by
    intro d hd
    rcases List.mem_append.1 hd with hold | hd
    · exact h.holds d hold
    · exact (hnew d (Option.mem_toList.1 hd)).2

/-- There are as many tokens as rules were dispatched. -/
theorem Noted.length_tokens (h : Noted alphabet count content dispatches offset) :
    (dispatches.flatMap (·.tokens)).length = (dispatches.map (·.rules)).sum := by
  rw [List.length_flatMap]
  exact congrArg List.sum (List.map_congr_left fun d hd => (h.holds d hd).length_tokens)

end Noted

/-! ## How an account ends -/

/-- What a failure has to do with the dispatches before it. -/
def Failure.Follows (dispatches : List Dispatch) : Failure → Prop
  | .absentContent => False
  | .unexpectedByte _ location => ∀ d ∈ dispatches, d.offset < location.offset
  | .stalled category location =>
    ∃ d, dispatches.getLast? = some d ∧ d.category = category ∧ d.offset = location.offset

/-- The closing event of an account, and the dispatches before it, are as the result says. -/
def Closes (dispatches : List Dispatch) (closing : Event) : Except Failure (List Token) → Prop
  | .ok tokens =>
    closing = .closed tokens.length ∧ tokens.length = (dispatches.map (·.rules)).sum
  | .error failure => closing = .aborted failure ∧ failure.Follows dispatches

/-- The failure of a turn follows the dispatches before it and the one that the turn notes. -/
theorem Tokenizer.TurnsTo.follows {t : Tokenizer} {before ahead : List Byte}
    {dispatch : Option Dispatch} {failure : Failure}
    (h : t.TurnsTo before ahead (.failed dispatch failure)) {dispatches : List Dispatch}
    (hbehind : ∀ d ∈ dispatches, d.offset < before.length) :
    failure.Follows (dispatches ++ dispatch.toList) := by
  cases h with
  | unknown hclass =>
    rw [Option.toList_none, List.append_nil]
    exact hbehind
  | @stalled byte rest category tokens hclass hrun =>
    exact ⟨t.dispatchAt before byte category tokens, List.getLast?_concat .., rfl, rfl⟩

/-! ## Whole runs -/

section Run

variable {v : Varying} {count : Category → Nat} {content : List Byte} {n : Nat} {h : Head}
  (hcount : ∀ n category, (v.rules n category).length = count category)
include hcount

/-- In every turn the categories have their number of rules. -/
theorem Varying.ruleCount_inTurn (n : Nat) : (v.inTurn n).ruleCount = count :=
  funext (hcount n)

/-- At every head the notes so far hold, and their places ascend up to the cursor. -/
theorem Varying.noted_of_head (hhead : v.head content n = some h) :
    Noted v.alphabet count content h.dispatches h.cursor.offset := by
  have hinvariant : ∃ before ahead, content = before ++ ahead ∧ h.cursor = between before ahead
      ∧ Noted v.alphabet count content h.dispatches before.length := by
    refine head_induction
      (motive := fun _ h => ∃ before ahead, content = before ++ ahead
        ∧ h.cursor = between before ahead
        ∧ Noted v.alphabet count content h.dispatches before.length)
      ⟨[], content, rfl, rfl, .nil⟩ ?_ hhead
    rintro n h dispatch next ⟨before, ahead, hcontent, hcursor, hnoted⟩ hturn
    have hturns := Tokenizer.turnsTo_of_turn_eq hcursor hturn
    have hnew := hturns.noted_holds
    rw [ruleCount_inTurn hcount n, ← hcontent] at hnew
    obtain ⟨used, left, rfl, hne, rfl⟩ := hturns.exists_used
    have hlt : before.length < (before ++ used).length := by
      have hpos := List.length_pos_iff.2 hne
      rw [List.length_append]
      omega
    exact ⟨before ++ used, left, by rw [hcontent, List.append_assoc], rfl,
      hnoted.append hnew hlt⟩
  obtain ⟨before, ahead, -, hcursor, hnoted⟩ := hinvariant
  rw [hcursor, Cursor.offset_between]
  exact hnoted

/-- The notes of a whole run hold, and it closes as its result says. -/
theorem Varying.noted_run (content : List Byte) :
    (∃ offset, Noted v.alphabet count content (v.run content).dispatches offset)
      ∧ Closes (v.run content).dispatches (v.run content).closing (v.run content).result := by
  obtain ⟨n, h, -, hhead, -, hturn | ⟨dispatch, failure, hturn⟩⟩ := v.exists_last_head content
  · have hnoted := noted_of_head hcount hhead
    rw [run_of_finished hhead hturn]
    exact ⟨⟨_, hnoted⟩, rfl, hnoted.length_tokens⟩
  · have hnoted := noted_of_head hcount hhead
    obtain ⟨before, ahead, rfl, -, hcursor⟩ := exists_between_of_head hhead
    rw [hcursor, Cursor.offset_between] at hnoted
    have hturns := Tokenizer.turnsTo_of_turn_eq hcursor hturn
    have hnew := hturns.noted_holds
    rw [ruleCount_inTurn hcount n] at hnew
    rw [run_of_failed hhead hturn]
    exact ⟨⟨_, hnoted.append hnew (Nat.lt_succ_self _)⟩, rfl, hturns.follows hnoted.behind⟩

end Run

/-- **The account is faithful.**  For rules of which nothing is known but their number and that
    they advance the cursor: without content there is no account.  With content it opens with the
    number of bytes, notes dispatches at ascending places of which each note holds, and closes
    once, as the result says (`Closes`).  A plain tokenizer is the case in which the rules are the
    same in all turns. -/
theorem account_is_faithful (v : Varying) {count : Category → Nat}
    (hcount : ∀ n category, (v.rules n category).length = count category) :
    v.events none = []
      ∧ (∀ content, ∃ dispatches closing,
        v.events (some content)
            = .opened content.length :: (dispatches.map .dispatched ++ [closing])
          ∧ dispatches.Pairwise (·.offset < ·.offset)
          ∧ (∀ d ∈ dispatches, d.Holds v.alphabet count content)
          ∧ Closes dispatches closing (v.tokenize? (some content)))
      ∧ ∀ t : Tokenizer, t.steady.events = t.events
        ∧ (∀ content, t.steady.tokenize? content = t.tokenize? content)
        ∧ ∀ n category, (t.steady.rules n category).length = t.ruleCount category := by
  refine ⟨rfl, fun content => ?_,
    fun t => ⟨Varying.events_steady t, Varying.tokenize?_steady t, fun _ _ => rfl⟩⟩
  obtain ⟨⟨offset, hnoted⟩, hcloses⟩ := Varying.noted_run hcount content
  exact ⟨(v.run content).dispatches, (v.run content).closing, rfl, hnoted.ascending,
    hnoted.holds, hcloses⟩

/-- Digits, with a rule that takes one in every other turn and a rule that takes nothing; blanks
    are ignored. -/
def hesitant : Varying where
  alphabet := { numbers := .digits, ignored := .listed [0x20] }
  rules n category := if category = .number then
      [Pattern.rule ⟨.number, if n % 2 = 0 then .single else .pointsRun .never⟩,
        Pattern.rule ⟨.delimiter, .pointsRun .never⟩]
    else []

/-- The number of its rules does not vary. -/
def hesitantCount (category : Category) : Nat := if category = .number then 2 else 0

-- 7, blank, 8, 9: the 8 is taken in turn 2 and the 9 stalls in turn 3, which is noted as well
theorem account_is_faithful_hesitant :
    (∀ n category, (hesitant.rules n category).length = hesitantCount category)
      ∧ hesitant.tokenize? (some [0x37, 0x20, 0x38, 0x39])
        = .error (.stalled .number ⟨1, 4, 3⟩)
      ∧ ∃ dispatches : List Dispatch, hesitant.events (some [0x37, 0x20, 0x38, 0x39])
          = .opened 4 :: (dispatches.map .dispatched ++ [.aborted (.stalled .number ⟨1, 4, 3⟩)])
        ∧ (∀ d ∈ dispatches, d.Holds hesitant.alphabet hesitantCount [0x37, 0x20, 0x38, 0x39])
        ∧ ∃ d, dispatches.getLast? = some d ∧ d.category = .number ∧ d.offset = 3 := by
  have hcount : ∀ n category, (hesitant.rules n category).length = hesitantCount category := by
    intro n category
    cases category <;> rfl
  have hstalled : hesitant.tokenize? (some [0x37, 0x20, 0x38, 0x39])
      = .error (.stalled .number ⟨1, 4, 3⟩) := by cbv
  obtain ⟨dispatches, closing, hevents, -, hholds, hcloses⟩ :=
    (account_is_faithful hesitant hcount).2.1 [0x37, 0x20, 0x38, 0x39]
  rw [hstalled] at hcloses
  obtain ⟨rfl, hlast⟩ := hcloses
  exact ⟨hcount, hstalled, dispatches, hevents, hholds, hlast⟩

end ByteTokenizer
