/-
  RUNS WITH A MEMORY: what a tokenizer with rules that remember has in common with plain ones.

  1. Called with a given memory, a rule is a plain rule (`MindfulRule.recalling`).  In one turn no
     rule is called twice, so for that turn the whole tokenizer is a plain one (`inTurn`): it takes
     the same turn (`turn_fst`).  So the five outcomes of a turn are those of plain tokenizers, and
     runs are followed turn by turn (`runFrom_induction`).

  2. Over a whole run the plain tokenizers of its turns are a `Varying` (`exists_varying`): what
     is proved of rules that vary from turn to turn holds of rules that remember.

  3. A run comes to the rules of those categories only that bytes ahead open: with the same rules
     for these it does the same and leaves the same memory (`run_congr`).

  4. A rule is memoryless if its token and where it leaves the cursor do not depend on the memory.
     It may still write there, as a rule does that counts its calls.  A run over memoryless rules
     is the plain run, whatever is in the memory (`run_of_memoryless`).
-/
import ByteTokenizer.Proofs.Tokenizer.Head
import ByteTokenizer.Tokenizer.Mindful

namespace ByteTokenizer

open Cursor (between)

variable {σ : Type}

/-- What the rule does if it is called with that memory. -/
def MindfulRule.recalling (rule : MindfulRule σ) (s : σ) : Rule := do
  let found ← rule s
  return found.1

namespace Mindful

/-! ## One turn -/

/-- A dispatch is the category's rules, from behind the marker if the category has one. -/
theorem run_dispatch (t : Mindful σ) (category : Category) (s : σ) (c : Cursor) :
    (t.dispatch category s).run c
      = (applyAll (t.rules category) s).run (if category.hasMarker then c.advance else c) := by
  unfold dispatch
  split <;> rfl

/-- The plain rules that the list amounts to if it is applied with the memory at the cursor. -/
def recallingAll : List (MindfulRule σ) → σ → Cursor → List Rule
  | [], _, _ => []
  | rule :: rules, s, c =>
    rule.recalling s :: recallingAll rules ((rule s).run c).1.2 ((rule s).run c).2

theorem length_recallingAll (rules : List (MindfulRule σ)) (s : σ) (c : Cursor) :
    (recallingAll rules s c).length = rules.length := by
  induction rules generalizing s c with
  | nil => rfl
  | cons rule rules ih => exact congrArg (· + 1) (ih _ _)

/-- Applied where they are called, they give its tokens and leave the cursor where it does. -/
theorem run_recallingAll (rules : List (MindfulRule σ)) (s : σ) (c : Cursor) :
    (Tokenizer.applyAll (recallingAll rules s c)).run c
      = (((applyAll rules s).run c).1.1, ((applyAll rules s).run c).2) := by
  induction rules generalizing s c with
  | nil => rfl
  | cons rule rules ih =>
    have hothers := ih ((rule s).run c).1.2 ((rule s).run c).2
    exact congrArg (fun others => (((rule s).run c).1.1 :: others.1, others.2)) hothers

/-- The tokenizer as it behaves in the turn that begins with the memory at the cursor. -/
def inTurn (t : Mindful σ) (s : σ) (c : Cursor) : Tokenizer where
  alphabet := t.alphabet
  rules category := recallingAll (t.rules category) s (if category.hasMarker then c.advance else c)

/-- In its turn the tokenizer dispatches a category as the plain tokenizer does. -/
theorem run_dispatch_inTurn (t : Mindful σ) (category : Category) (s : σ) (c : Cursor) :
    ((t.inTurn s c).dispatch category).run c
      = (((t.dispatch category s).run c).1.1, ((t.dispatch category s).run c).2) := by
  rw [Tokenizer.run_dispatch, run_dispatch]
  exact run_recallingAll (t.rules category) s _

/-- And it takes the turn of the plain tokenizer. -/
theorem turn_fst (t : Mindful σ) (s : σ) (c : Cursor) :
    (t.turn s c).1 = (t.inTurn s c).turn c := by
  have halphabet : (t.inTurn s c).alphabet = t.alphabet := rfl
  have hcount : ∀ category, (t.inTurn s c).ruleCount category = t.rules.count category :=
    fun _ => length_recallingAll _ _ _
  cases hcur : c.current with
  | none => simp [turn, Tokenizer.turn, hcur]
  | some byte =>
    rcases hclass : t.alphabet.classify byte with _ | _ | category
    · simp [turn, Tokenizer.turn, hcur, halphabet, hclass]
    · simp [turn, Tokenizer.turn, hcur, halphabet, hclass]
    · simp only [turn, Tokenizer.turn, hcur, halphabet, hclass, hcount, run_dispatch_inTurn]
      split <;> rfl

/-! ## Runs, turn by turn -/

/-- Induction over runs: a run is finished, or fails, or is a turn that takes some of the bytes
    ahead and then the run with the memory of that turn over those that are left. -/
theorem runFrom_induction {t : Mindful σ} {motive : σ → List Byte → List Byte → Run × σ → Prop}
    (finished : ∀ s before last, t.turn s (between before []) = (.finished, last) →
      motive s before [] (.finished, last))
    (failed : ∀ s before ahead dispatch failure last,
      t.turn s (between before ahead) = (.failed dispatch failure, last) →
      motive s before ahead ((Run.failed failure).precededBy dispatch, last))
    (onward : ∀ s before used left dispatch last r,
      t.turn s (between before (used ++ left))
        = (.onward dispatch (between (before ++ used) left), last) →
      motive last (before ++ used) left r →
      motive s before (used ++ left) (r.1.precededBy dispatch, r.2))
    (s : σ) (before ahead : List Byte) :
    motive s before ahead (t.runFrom s (between before ahead)) := by
  induction hlen : ahead.length using Nat.strongRecOn generalizing s before ahead with
  | ind k ih =>
    have hturns := (t.inTurn s (between before ahead)).turnsTo_turn before ahead
    rw [← turn_fst] at hturns
    rcases hturn : t.turn s (between before ahead) with ⟨turn, last⟩
    rw [hturn] at hturns
    cases turn with
    | finished =>
      rw [runFrom_of_finished hturn]
      cases hturns
      exact finished s before last hturn
    | failed dispatch failure =>
      rw [runFrom_of_failed hturn]
      exact failed s before ahead dispatch failure last hturn
    | onward dispatch next =>
      rw [runFrom_of_onward hturn]
      obtain ⟨used, left, rfl, hne, rfl⟩ := hturns.exists_used
      have hlt : left.length < k := by
        have hpos := List.length_pos_iff.2 hne
        rw [List.length_append] at hlen
        omega
      exact onward s before used left dispatch last _ hturn
        (ih left.length hlt last (before ++ used) left rfl)

/-! ## The turns of a run as rules that vary -/

/-- The memory and the cursor after a turn that leads onward; others leave them as they are. -/
def onward (t : Mindful σ) (p : σ × Cursor) : σ × Cursor :=
  match t.turn p.1 p.2 with
  | (.onward _ next, last) => (last, next)
  | _ => p

/-- The memory and the cursor with which turn `n` begins, if the run gets that far. -/
def place (t : Mindful σ) (s : σ) (c : Cursor) : Nat → σ × Cursor
  | 0 => (s, c)
  | n + 1 => t.onward (t.place s c n)

/-- The rules as they behave in the turns of the run that begins with the memory at the cursor. -/
def varying (t : Mindful σ) (s : σ) (c : Cursor) : Varying where
  alphabet := t.alphabet
  rules n := (t.inTurn (t.place s c n).1 (t.place s c n).2).rules

theorem runFrom_varying (t : Mindful σ) (s : σ) (c : Cursor) (n : Nat) :
    (t.varying s c).runFrom n (t.place s c n).2
      = (t.runFrom (t.place s c n).1 (t.place s c n).2).1 := by
  induction hleft : (t.place s c n).2.left using Nat.strongRecOn generalizing n with
  | ind k ih =>
    have hsame : ((t.varying s c).inTurn n).turn (t.place s c n).2
        = (t.turn (t.place s c n).1 (t.place s c n).2).1 :=
      (t.turn_fst (t.place s c n).1 (t.place s c n).2).symm
    rcases hturn : t.turn (t.place s c n).1 (t.place s c n).2 with ⟨turn, last⟩
    rw [hturn] at hsame
    cases turn with
    | finished => rw [runFrom_of_finished hturn, Varying.runFrom_of_finished hsame]
    | failed dispatch failure => rw [runFrom_of_failed hturn, Varying.runFrom_of_failed hsame]
    | onward dispatch next =>
      have hplace : t.place s c (n + 1) = (last, next) := by
        rw [place, onward, hturn]
      have hlt : (t.place s c (n + 1)).2.left < k := by
        rw [hplace, ← hleft]
        exact left_lt_of_turn_eq_onward hturn
      have hlater := ih _ hlt (n + 1) rfl
      rw [hplace] at hlater
      rw [runFrom_of_onward hturn, Varying.runFrom_of_onward hsame, hlater]

/-- **A run with a memory is a run of rules that vary from turn to turn**, as many rules for each
    category in each turn as the tokenizer has. -/
theorem exists_varying (t : Mindful σ) (s : σ) (content : List Byte) :
    ∃ v : Varying, v.alphabet = t.alphabet
      ∧ (∀ n category, (v.rules n category).length = (t.rules category).length)
      ∧ v.run content = (t.run s content).1 :=
  ⟨t.varying s (Cursor.fresh content).advance, rfl, fun _ _ => length_recallingAll _ _ _,
    t.runFrom_varying s (Cursor.fresh content).advance 0⟩

/-! ## Categories that a run does not come to -/

/-- Tokenizers that agree on the category of the byte ahead take the same turn, and leave the same
    memory. -/
theorem turn_congr {t t' : Mindful σ} (halphabet : t'.alphabet = t.alphabet) (s : σ)
    (before : List Byte) {ahead : List Byte}
    (hrules : ∀ b ∈ ahead, ∀ category, t.alphabet.classify b = some (.opens category) →
      t'.rules category = t.rules category) :
    t'.turn s (between before ahead) = t.turn s (between before ahead) := by
  cases ahead with
  | nil => simp [turn]
  | cons byte rest =>
    rcases hclass : t.alphabet.classify byte with _ | _ | category
    · simp [turn, halphabet, hclass]
    · simp [turn, halphabet, hclass]
    · have hsame := hrules byte List.mem_cons_self category hclass
      simp [turn, halphabet, hclass, run_dispatch, Registry.count, hsame]

/-- A run comes to the rules of those categories only that bytes of the content open. -/
theorem run_congr {t t' : Mindful σ} (halphabet : t'.alphabet = t.alphabet) (s : σ)
    {content : List Byte}
    (hrules : ∀ b ∈ content, ∀ category, t.alphabet.classify b = some (.opens category) →
      t'.rules category = t.rules category) :
    t'.run s content = t.run s content := by
  rw [run, run, Cursor.advance_fresh]
  refine runFrom_induction (t := t)
    (motive := fun s before ahead r => (∀ b ∈ ahead, ∀ category,
        t.alphabet.classify b = some (.opens category) → t'.rules category = t.rules category) →
      t'.runFrom s (between before ahead) = r) ?_ ?_ ?_ s [] content hrules
  · intro s before last hturn hrules
    exact runFrom_of_finished ((turn_congr halphabet s before hrules).trans hturn)
  · intro s before ahead dispatch failure last hturn hrules
    exact runFrom_of_failed ((turn_congr halphabet s before hrules).trans hturn)
  · intro s before used left dispatch last r hturn ih hrules
    have hleft := ih fun b hb => hrules b (List.mem_append_right used hb)
    rw [runFrom_of_onward ((turn_congr halphabet s before hrules).trans hturn), hleft]

/-- The tokenizer without the rules of the category. -/
def without (t : Mindful σ) (category : Category) : Mindful σ where
  alphabet := t.alphabet
  rules c := if c = category then [] else t.rules c

/-- On a content in which no byte opens the category it does the same. -/
theorem run_without {t : Mindful σ} {category : Category} {content : List Byte}
    (hnone : ∀ b ∈ content, t.alphabet.classify b ≠ some (.opens category)) (s : σ) :
    (t.without category).run s content = t.run s content := by
  have halphabet : (t.without category).alphabet = t.alphabet := rfl
  refine run_congr halphabet s fun b hb c hclass => if_neg ?_
  exact fun heq => hnone b hb (heq ▸ hclass)

end Mindful

/-! ## Rules without a memory -/

/-- The rule's token, and where it leaves the cursor, do not depend on the memory. -/
def MindfulRule.Memoryless (rule : MindfulRule σ) : Prop :=
  ∀ s s', rule.recalling s = rule.recalling s'

/-- All rules of the lists are memoryless. -/
def Registry.Memoryless (lists : Registry (MindfulRule σ)) : Prop :=
  ∀ category, ∀ rule ∈ lists category, rule.Memoryless

/-- A plain rule among rules that remember is itself, with whatever memory it is called. -/
theorem Rule.recalling_mindful (rule : Rule) (s : σ) : rule.mindful.recalling s = rule :=
  Scan.ext fun _ => rfl

/-- So it is memoryless. -/
theorem Rule.memoryless_mindful (rule : Rule) : (rule.mindful : MindfulRule σ).Memoryless := by
  intro s s'
  rw [recalling_mindful, recalling_mindful]

namespace Mindful

/-- Without the rules of a category the others have to be memoryless only. -/
theorem memoryless_without {t : Mindful σ} {category : Category}
    (h : ∀ other, other ≠ category → ∀ rule ∈ t.rules other, rule.Memoryless) :
    (t.without category).rules.Memoryless := by
  intro other rule hrule
  change rule ∈ if other = category then [] else t.rules other at hrule
  by_cases hother : other = category
  · rw [if_pos hother] at hrule
    exact absurd hrule List.not_mem_nil
  · rw [if_neg hother] at hrule
    exact h other hother rule hrule

/-- The plain tokenizer whose rules do what these do if they are called with the memory. -/
def plain (t : Mindful σ) (s : σ) : Tokenizer where
  alphabet := t.alphabet
  rules category := (t.rules category).map (·.recalling s)

/-- Memoryless rules are the same plain rules wherever and with whatever memory they are called. -/
theorem recallingAll_of_memoryless {rules : List (MindfulRule σ)}
    (h : ∀ rule ∈ rules, rule.Memoryless) (s₀ s : σ) (c : Cursor) :
    recallingAll rules s c = rules.map (·.recalling s₀) := by
  induction rules generalizing s c with
  | nil => rfl
  | cons rule rules ih =>
    obtain ⟨hrule, hrules⟩ := List.forall_mem_cons.1 h
    rw [recallingAll, ih hrules, hrule s s₀, List.map_cons]

/-- With memoryless rules a tokenizer behaves alike in all turns. -/
theorem inTurn_of_memoryless {t : Mindful σ} (h : t.rules.Memoryless) (s₀ s : σ) (c : Cursor) :
    t.inTurn s c = t.plain s₀ := by
  have hrules : (t.inTurn s c).rules = (t.plain s₀).rules :=
    funext fun category => recallingAll_of_memoryless (h category) s₀ s _
  exact congrArg (Tokenizer.mk t.alphabet) hrules

/-- **Memoryless rules do what plain rules do**, whatever is in the memory. -/
theorem run_of_memoryless {t : Mindful σ} (h : t.rules.Memoryless) (s₀ s : σ)
    (content : List Byte) : (t.run s content).1 = (t.plain s₀).run content := by
  have hplain : ∀ s c, (t.plain s₀).turn c = (t.turn s c).1 := by
    intro s c
    rw [turn_fst, inTurn_of_memoryless h s₀]
  rw [run, Tokenizer.run, Cursor.advance_fresh]
  refine runFrom_induction (t := t)
    (motive := fun _ before ahead r => r.1 = (t.plain s₀).runFrom (between before ahead))
    ?_ ?_ ?_ s [] content
  · intro s before last hturn
    exact (Tokenizer.runFrom_of_finished ((hplain s _).trans (congrArg Prod.fst hturn))).symm
  · intro s before ahead dispatch failure last hturn
    exact (Tokenizer.runFrom_of_failed ((hplain s _).trans (congrArg Prod.fst hturn))).symm
  · intro s before used left dispatch last r hturn ih
    rw [Tokenizer.runFrom_of_onward ((hplain s _).trans (congrArg Prod.fst hturn)), ← ih]

end Mindful

end ByteTokenizer
