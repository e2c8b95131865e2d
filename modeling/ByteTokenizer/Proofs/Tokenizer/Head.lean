/-
  HEADS: what a run holds between two turns.

  A run takes one turn after the other.  Between two turns it holds the dispatches so far and the
  cursor, and nothing else: that is a `Head`.  `Varying.head content n` is the head at which turn
  `n` begins, if the run gets that far.

  1. What holds of the first head and is kept by every turn that leads onward holds of every head
     (`head_induction`).  All invariants of runs are proved with it; what is said of a run from its
     end on is proved with `runFrom_induction`.

  2. A head divides the content, and the turns so far have taken at least one byte each
     (`exists_between_of_head`), so there is a last head (`exists_last_head`).

  3. The turn at the last head decides what the run leaves behind (`run_of_finished`,
     `run_of_failed`).

  The rules of a tokenizer are functions of the cursor.  A rule may also have a memory of its own,
  for instance a counter, and then it answers differently from call to call.  In one turn a run
  calls no rule twice, so in that turn such a rule does what some rule without a memory does.  A
  `Varying` has rules for each turn: for every run with a memory there is one that does the same
  (`Mindful.exists_varying`).  A plain tokenizer is the `steady` case, which changes nothing
  (`tokenize?_steady`).
-/
import ByteTokenizer.Proofs.Tokenizer.Turn

namespace ByteTokenizer

open Cursor (between)

/-! ## Rules that vary from turn to turn -/

/-- A tokenizer whose rules may behave differently in each turn. -/
structure Varying where
  alphabet : Alphabet
  /-- The rules of each category as they behave in the turn of that number. -/
  rules : Nat → Category → List Rule

/-- The plain tokenizer, whose rules behave alike in all turns. -/
def Tokenizer.steady (t : Tokenizer) : Varying where
  alphabet := t.alphabet
  rules := fun _ => t.rules

namespace Varying

/-- The tokenizer as it behaves in turn `n`. -/
def inTurn (v : Varying) (n : Nat) : Tokenizer where
  alphabet := v.alphabet
  rules := v.rules n

@[simp] theorem inTurn_steady (t : Tokenizer) (n : Nat) : t.steady.inTurn n = t := rfl

/-- The run from turn `n` on, which begins at the cursor. -/
def runFrom (v : Varying) (n : Nat) (c : Cursor) : Run :=
  match h : (v.inTurn n).turn c with
  | .finished => .finished
  | .failed dispatch failure => (Run.failed failure).precededBy dispatch
  | .onward dispatch next =>
    have : next.left < c.left := Tokenizer.left_lt_of_turn_eq_onward h
    (v.runFrom (n + 1) next).precededBy dispatch
termination_by c.left

/-- The run over a content. -/
def run (v : Varying) (content : List Byte) : Run := v.runFrom 0 (Cursor.fresh content).advance

/-- The tokens of a content that may be absent. -/
def tokenize? (v : Varying) (content : Option (List Byte)) : Except Failure (List Token) := do
  let c ← Cursor.ofContent? content
  (v.runFrom 0 c.advance).result

variable {v : Varying} {n : Nat} {c next : Cursor} {dispatch : Option Dispatch}
  {failure : Failure}

theorem runFrom_of_finished (h : (v.inTurn n).turn c = .finished) :
    v.runFrom n c = .finished := by
  rw [runFrom]
  split <;> simp_all

theorem runFrom_of_failed (h : (v.inTurn n).turn c = .failed dispatch failure) :
    v.runFrom n c = (Run.failed failure).precededBy dispatch := by
  rw [runFrom]
  split <;> simp_all

theorem runFrom_of_onward (h : (v.inTurn n).turn c = .onward dispatch next) :
    v.runFrom n c = (v.runFrom (n + 1) next).precededBy dispatch := by
  rw [runFrom]
  split <;> simp_all

/-- Induction over runs: a run is finished, or fails, or is a turn that takes some of the bytes
    ahead and then the run over those that are left. -/
theorem runFrom_induction {motive : Nat → List Byte → List Byte → Run → Prop}
    (finished : ∀ n before, motive n before [] .finished)
    (failed : ∀ n before ahead dispatch failure,
      (v.inTurn n).TurnsTo before ahead (.failed dispatch failure) →
      motive n before ahead ((Run.failed failure).precededBy dispatch))
    (onward : ∀ n before used left dispatch r,
      (v.inTurn n).TurnsTo before (used ++ left)
        (.onward dispatch (between (before ++ used) left)) →
      motive (n + 1) (before ++ used) left r →
      motive n before (used ++ left) (r.precededBy dispatch))
    (n : Nat) (before ahead : List Byte) :
    motive n before ahead (v.runFrom n (between before ahead)) := by
  induction hlen : ahead.length using Nat.strongRecOn generalizing n before ahead with
  | ind k ih =>
    have hturns := (v.inTurn n).turnsTo_turn before ahead
    cases hturn : (v.inTurn n).turn (between before ahead) with
    | finished =>
      rw [hturn] at hturns
      rw [runFrom_of_finished hturn]
      cases hturns
      exact finished n before
    | failed dispatch failure =>
      rw [hturn] at hturns
      rw [runFrom_of_failed hturn]
      exact failed n before ahead dispatch failure hturns
    | onward dispatch next =>
      rw [hturn] at hturns
      rw [runFrom_of_onward hturn]
      obtain ⟨used, left, rfl, hne, rfl⟩ := hturns.exists_used
      have hlt : left.length < k := by
        have hpos := List.length_pos_iff.2 hne
        rw [List.length_append] at hlen
        omega
      exact onward n before used left dispatch _ hturns
        (ih left.length hlt (n + 1) (before ++ used) left rfl)

/-- Without a memory the number of the turn makes no difference. -/
theorem runFrom_steady (t : Tokenizer) (n : Nat) (c : Cursor) :
    t.steady.runFrom n c = t.runFrom c := by
  induction hleft : c.left using Nat.strongRecOn generalizing n c with
  | ind k ih =>
    cases hturn : t.turn c with
    | finished =>
      rw [runFrom_of_finished (n := n) (v := t.steady) hturn, Tokenizer.runFrom_of_finished hturn]
    | failed dispatch failure =>
      rw [runFrom_of_failed (n := n) (v := t.steady) hturn, Tokenizer.runFrom_of_failed hturn]
    | onward dispatch next =>
      have hlt : next.left < k := hleft ▸ Tokenizer.left_lt_of_turn_eq_onward hturn
      rw [runFrom_of_onward (n := n) (v := t.steady) hturn, Tokenizer.runFrom_of_onward hturn,
        ih next.left hlt (n + 1) next rfl]

@[simp] theorem run_steady (t : Tokenizer) (content : List Byte) :
    t.steady.run content = t.run content :=
  runFrom_steady t 0 _

/-- A plain tokenizer gives the tokens of its steady case. -/
theorem tokenize?_steady (t : Tokenizer) (content : Option (List Byte)) :
    t.steady.tokenize? content = t.tokenize? content := by
  cases content with
  | none => rfl
  | some content => exact congrArg Run.result (run_steady t content)

theorem tokenize?_some (v : Varying) (content : List Byte) :
    v.tokenize? (some content) = (v.run content).result := rfl

end Varying

/-- Induction over the runs of a plain tokenizer. -/
theorem Tokenizer.runFrom_induction (t : Tokenizer) {motive : List Byte → List Byte → Run → Prop}
    (finished : ∀ before, motive before [] .finished)
    (failed : ∀ before ahead dispatch failure,
      t.TurnsTo before ahead (.failed dispatch failure) →
      motive before ahead ((Run.failed failure).precededBy dispatch))
    (onward : ∀ before used left dispatch r,
      t.TurnsTo before (used ++ left) (.onward dispatch (between (before ++ used) left)) →
      motive (before ++ used) left r → motive before (used ++ left) (r.precededBy dispatch))
    (before ahead : List Byte) : motive before ahead (t.runFrom (between before ahead)) := by
  rw [← Varying.runFrom_steady t 0]
  exact Varying.runFrom_induction (v := t.steady) (motive := fun _ => motive) (fun _ => finished)
    (fun _ => failed) (fun _ => onward) 0 before ahead

/-! ## The result, turn by turn -/

/-- A dispatch puts its tokens in front of those that come later, if those come at all. -/
theorem Run.result_precededBy (r : Run) (dispatch : Option Dispatch) :
    (r.precededBy dispatch).result
      = r.result.map (dispatch.toList.flatMap (·.tokens) ++ ·) := by
  obtain ⟨dispatches, failure⟩ := r
  cases failure with
  | none =>
    show Except.ok ((dispatch.toList ++ dispatches).flatMap (·.tokens)) = _
    rw [List.flatMap_append]
    rfl
  | some failure => rfl

/-- Behind a turn that leads onward its tokens stand in front of those of the rest of the run. -/
theorem Tokenizer.result_of_onward {t : Tokenizer} {c next : Cursor} {dispatch : Option Dispatch}
    (hturn : t.turn c = .onward dispatch next) :
    (t.runFrom c).result
      = (t.runFrom next).result.map (dispatch.toList.flatMap (·.tokens) ++ ·) := by
  rw [runFrom_of_onward hturn, Run.result_precededBy]

/-! ## Heads -/

/-- What a run holds at the beginning of a turn. -/
structure Head where
  /-- The dispatches so far, first to last. -/
  dispatches : List Dispatch
  cursor : Cursor
deriving DecidableEq

/-- The tokens so far. -/
def Head.tokens (h : Head) : List Token := h.dispatches.flatMap (·.tokens)

/-- The head after a turn of the tokenizer, if that turn leads onward. -/
def Head.next? (h : Head) (t : Tokenizer) : Option Head :=
  match t.turn h.cursor with
  | .onward dispatch next => some ⟨h.dispatches ++ dispatch.toList, next⟩
  | _ => none

/-- The head at which turn `n` begins, if the run over the content gets that far. -/
def Varying.head (v : Varying) (content : List Byte) : Nat → Option Head
  | 0 => some ⟨[], (Cursor.fresh content).advance⟩
  | n + 1 => (v.head content n).bind fun h => h.next? (v.inTurn n)

namespace Varying

variable {v : Varying} {content : List Byte}

/-- A head other than the first comes from a turn that leads onward. -/
theorem exists_turn_of_head_succ {n : Nat} {h' : Head} (hhead : v.head content (n + 1) = some h') :
    ∃ h dispatch next, v.head content n = some h
      ∧ (v.inTurn n).turn h.cursor = .onward dispatch next
      ∧ h' = ⟨h.dispatches ++ dispatch.toList, next⟩ := by
  obtain ⟨h, hhead, hnext⟩ := Option.bind_eq_some_iff.1 hhead
  cases hturn : (v.inTurn n).turn h.cursor with
  | finished => simp [Head.next?, hturn] at hnext
  | failed dispatch failure => simp [Head.next?, hturn] at hnext
  | onward dispatch next =>
    simp only [Head.next?, hturn, Option.some.injEq] at hnext
    exact ⟨h, dispatch, next, hhead, hturn, hnext.symm⟩

/-- The turn that leads onward from a head gives the next one. -/
theorem head_succ {n : Nat} {h : Head} {dispatch : Option Dispatch} {next : Cursor}
    (hhead : v.head content n = some h)
    (hturn : (v.inTurn n).turn h.cursor = .onward dispatch next) :
    v.head content (n + 1) = some ⟨h.dispatches ++ dispatch.toList, next⟩ := by
  rw [head, hhead, Option.bind_some, Head.next?, hturn]

/-- What holds of the first head and is kept by the turns that lead onward holds of all heads. -/
theorem head_induction {motive : Nat → Head → Prop}
    (start : motive 0 ⟨[], between [] content⟩)
    (turn : ∀ n h dispatch next, motive n h →
      (v.inTurn n).turn h.cursor = .onward dispatch next →
      motive (n + 1) ⟨h.dispatches ++ dispatch.toList, next⟩)
    {n : Nat} {h : Head} (hhead : v.head content n = some h) : motive n h := by
  induction n generalizing h with
  | zero =>
    rw [head, Cursor.advance_fresh] at hhead
    exact Option.some.inj hhead ▸ start
  | succ n ih =>
    obtain ⟨h, dispatch, next, hprev, hturn, rfl⟩ := exists_turn_of_head_succ hhead
    exact turn n h dispatch next (ih hprev) hturn

/-- A head divides the content, and each turn before it has taken at least one byte. -/
theorem exists_between_of_head {n : Nat} {h : Head} (hhead : v.head content n = some h) :
    ∃ before ahead, content = before ++ ahead ∧ n ≤ before.length
      ∧ h.cursor = between before ahead := by
  refine head_induction
    (motive := fun n h => ∃ before ahead, content = before ++ ahead ∧ n ≤ before.length
      ∧ h.cursor = between before ahead)
    ⟨[], content, rfl, Nat.le_refl 0, rfl⟩ ?_ hhead
  rintro n h dispatch next ⟨before, ahead, hcontent, hn, hcursor⟩ hturn
  obtain ⟨used, left, rfl, hne, rfl⟩ :=
    (Tokenizer.turnsTo_of_turn_eq hcursor hturn).exists_used
  have hpos := List.length_pos_iff.2 hne
  refine ⟨before ++ used, left, by rw [hcontent, List.append_assoc], ?_, rfl⟩
  rw [List.length_append]
  omega

/-- A turn that leads onward leads to a greater offset, which is still in the content. -/
theorem offset_lt_of_onward {n : Nat} {h : Head} (hhead : v.head content n = some h)
    {dispatch : Option Dispatch} {next : Cursor}
    (hturn : (v.inTurn n).turn h.cursor = .onward dispatch next) :
    h.cursor.offset < next.offset ∧ next.offset ≤ content.length := by
  obtain ⟨before, ahead, rfl, -, hcursor⟩ := exists_between_of_head hhead
  obtain ⟨used, left, rfl, hne, rfl⟩ :=
    (Tokenizer.turnsTo_of_turn_eq hcursor hturn).exists_used
  have hpos := List.length_pos_iff.2 hne
  rw [hcursor]
  simp only [Cursor.offset_between, List.length_append]
  omega

/-! ## The last head -/

/-- The whole run is what happened up to a head, and the run from that head on. -/
theorem run_eq_of_head {n : Nat} {h : Head} (hhead : v.head content n = some h) :
    v.run content = { v.runFrom n h.cursor with
      dispatches := h.dispatches ++ (v.runFrom n h.cursor).dispatches } := by
  refine head_induction
    (motive := fun n h => v.run content = { v.runFrom n h.cursor with
      dispatches := h.dispatches ++ (v.runFrom n h.cursor).dispatches }) ?_ ?_ hhead
  · rw [run, Cursor.advance_fresh]
    rfl
  · intro n h dispatch next ih hturn
    rw [ih, runFrom_of_onward hturn]
    simp only [Run.precededBy, List.append_assoc]

/-- The run whose last turn finds nothing ahead. -/
theorem run_of_finished {n : Nat} {h : Head} (hhead : v.head content n = some h)
    (hturn : (v.inTurn n).turn h.cursor = .finished) :
    v.run content = ⟨h.dispatches, none⟩ := by
  rw [run_eq_of_head hhead, runFrom_of_finished hturn]
  simp [Run.finished]

/-- The run whose last turn fails. -/
theorem run_of_failed {n : Nat} {h : Head} {dispatch : Option Dispatch} {failure : Failure}
    (hhead : v.head content n = some h)
    (hturn : (v.inTurn n).turn h.cursor = .failed dispatch failure) :
    v.run content = ⟨h.dispatches ++ dispatch.toList, some failure⟩ := by
  rw [run_eq_of_head hhead, runFrom_of_failed hturn]
  simp [Run.failed, Run.precededBy]

/-- If the heads end somewhere, there is a last one. -/
theorem exists_last_of_head_eq_none {m : Nat} (hnone : v.head content m = none) :
    ∃ n h, n < m ∧ v.head content n = some h ∧ v.head content (n + 1) = none := by
  induction m with
  | zero => exact absurd hnone (by simp [head])
  | succ m ih =>
    cases hhead : v.head content m with
    | none =>
      obtain ⟨n, h, hlt, hlast⟩ := ih hhead
      exact ⟨n, h, Nat.lt_succ_of_lt hlt, hlast⟩
    | some h => exact ⟨m, h, Nat.lt_succ_self m, hhead, hnone⟩

/-- A run has a last head, no later than there are bytes, and the turn there ends it. -/
theorem exists_last_head (v : Varying) (content : List Byte) :
    ∃ n h, n ≤ content.length ∧ v.head content n = some h ∧ v.head content (n + 1) = none
      ∧ ((v.inTurn n).turn h.cursor = .finished
        ∨ ∃ dispatch failure, (v.inTurn n).turn h.cursor = .failed dispatch failure) := by
  have hnone : v.head content (content.length + 1) = none := by
    cases hhead : v.head content (content.length + 1) with
    | none => rfl
    | some h =>
      obtain ⟨before, ahead, hcontent, hn, -⟩ := exists_between_of_head hhead
      rw [hcontent, List.length_append] at hn
      omega
  obtain ⟨n, h, hlt, hhead, hlast⟩ := exists_last_of_head_eq_none hnone
  refine ⟨n, h, by omega, hhead, hlast, ?_⟩
  cases hturn : (v.inTurn n).turn h.cursor with
  | finished => exact Or.inl rfl
  | failed dispatch failure => exact Or.inr ⟨dispatch, failure, rfl⟩
  | onward dispatch next =>
    rw [head_succ hhead hturn] at hlast
    exact nomatch hlast

/-- A run that gives tokens comes to a head with nothing ahead, and they are those so far. -/
theorem exists_head_of_result_ok {tokens : List Token}
    (hok : (v.run content).result = .ok tokens) :
    ∃ n h, v.head content n = some h ∧ (v.inTurn n).turn h.cursor = .finished
      ∧ v.run content = ⟨h.dispatches, none⟩ ∧ h.tokens = tokens := by
  obtain ⟨n, h, -, hhead, -, hturn | ⟨dispatch, failure, hturn⟩⟩ := v.exists_last_head content
  · have hrun := run_of_finished hhead hturn
    rw [hrun] at hok
    exact ⟨n, h, hhead, hturn, hrun, Except.ok.inj hok⟩
  · rw [run_of_failed hhead hturn] at hok
    exact nomatch hok

/-- A run that fails comes to a head at which the turn fails that way. -/
theorem exists_head_of_result_error {failure : Failure}
    (hfail : (v.run content).result = .error failure) :
    ∃ n h dispatch, v.head content n = some h
      ∧ (v.inTurn n).turn h.cursor = .failed dispatch failure := by
  obtain ⟨n, h, -, hhead, -, hturn | ⟨dispatch, failure', hturn⟩⟩ := v.exists_last_head content
  · rw [run_of_finished hhead hturn] at hfail
    exact nomatch hfail
  · rw [run_of_failed hhead hturn] at hfail
    obtain rfl : failure' = failure := Except.error.inj hfail
    exact ⟨n, h, dispatch, hhead, hturn⟩

end Varying

end ByteTokenizer
