/-
  TURNS: everything that one turn of a run can do.

  At a head `between before ahead` there are five outcomes, and `TurnsTo` has one constructor for
  each: nothing is ahead; the byte ahead has no meaning; it is ignored; its rules are dispatched
  and leave the cursor where it was; its rules are dispatched and take at least that byte.  Each
  constructor says what is known of the byte and what the turn gives, so nothing that is proved
  of a run has to look into `turn` again.

  The check that stops a dispatch without progress compares positions, but what it decides is
  whether the cursor is the same as before (`Cursor.Reaches.stuck_iff`); in this form the two
  constructors for a dispatch exclude each other and leave nothing out.
-/
import ByteTokenizer.Proofs.Cursor.Between
import ByteTokenizer.Tokenizer.Run

namespace ByteTokenizer.Tokenizer

open Cursor (between)

/-- A dispatch is the category's rules, from behind the marker if the category has one. -/
theorem run_dispatch (t : Tokenizer) (category : Category) (c : Cursor) :
    (t.dispatch category).run c
      = (applyAll (t.rules category)).run (if category.hasMarker then c.advance else c) := by
  unfold dispatch
  split <;> rfl

/-- A category with one rule gives its one token. -/
theorem run_dispatch_of_rules {t : Tokenizer} {category : Category} {rule : Rule}
    (hrules : t.rules category = [rule]) {c next : Cursor} {token : Token}
    (hrule : rule.run (if category.hasMarker then c.advance else c) = (token, next)) :
    (t.dispatch category).run c = ([token], next) := by
  rw [run_dispatch, hrules]
  show ([(rule.run _).1], (rule.run _).2) = _
  rw [hrule]

/-- The note of a dispatch at the head `between before (byte :: _)`. -/
def dispatchAt (t : Tokenizer) (before : List Byte) (byte : Byte) (category : Category)
    (tokens : List Token) : Dispatch where
  byte := byte
  offset := before.length
  category := category
  rules := t.ruleCount category
  tokens := tokens

/-- The turn that begins at `between before ahead` is the given one. -/
inductive TurnsTo (t : Tokenizer) (before : List Byte) : List Byte → Turn → Prop where
  /-- Nothing is ahead. -/
  | ended : TurnsTo t before [] .finished
  /-- The byte ahead has no meaning. -/
  | unknown {byte : Byte} {rest : List Byte} (hclass : t.alphabet.classify byte = none) :
      TurnsTo t before (byte :: rest) (.failed none (.unexpectedByte byte (.after before)))
  /-- The byte ahead is stepped over. -/
  | ignored {byte : Byte} {rest : List Byte} (hclass : t.alphabet.classify byte = some .ignored) :
      TurnsTo t before (byte :: rest) (.onward none (between (before ++ [byte]) rest))
  /-- The rules of the byte's category leave the cursor where it was. -/
  | stalled {byte : Byte} {rest : List Byte} {category : Category} {tokens : List Token}
      (hclass : t.alphabet.classify byte = some (.opens category))
      (hrun : (t.dispatch category).run (between before (byte :: rest))
        = (tokens, between before (byte :: rest))) :
      TurnsTo t before (byte :: rest)
        (.failed (some (t.dispatchAt before byte category tokens))
          (.stalled category (.after before)))
  /-- The rules of the byte's category take that byte and perhaps more. -/
  | dispatched {byte : Byte} {rest more left : List Byte} {category : Category}
      {tokens : List Token} (hclass : t.alphabet.classify byte = some (.opens category))
      (hrest : rest = more ++ left)
      (hrun : (t.dispatch category).run (between before (byte :: rest))
        = (tokens, between (before ++ byte :: more) left)) :
      TurnsTo t before (byte :: rest)
        (.onward (some (t.dispatchAt before byte category tokens))
          (between (before ++ byte :: more) left))

/-- A turn that dispatches a category, with the check for progress in terms of the cursor. -/
theorem turn_of_opens {t : Tokenizer} {before rest : List Byte} {byte : Byte}
    {category : Category} (hclass : t.alphabet.classify byte = some (.opens category)) :
    t.turn (between before (byte :: rest))
      = let tokens := ((t.dispatch category).run (between before (byte :: rest))).1
        let next := ((t.dispatch category).run (between before (byte :: rest))).2
        if next = between before (byte :: rest) then
          .failed (some (t.dispatchAt before byte category tokens))
            (.stalled category next.location)
        else .onward (some (t.dispatchAt before byte category tokens)) next := by
  have hbyte : (between before (byte :: rest)).current ≠ none := by simp
  have hstuck := ((t.dispatch category).forward (between before (byte :: rest))).stuck_iff hbyte
  simp only [turn, Cursor.current_between, List.head?_cons, hclass, Cursor.offset_between, hstuck]
  rfl

/-- Every turn is one of the five. -/
theorem turnsTo_turn (t : Tokenizer) (before ahead : List Byte) :
    TurnsTo t before ahead (t.turn (between before ahead)) := by
  cases ahead with
  | nil =>
    have hturn : t.turn (between before []) = .finished := by simp [turn]
    rw [hturn]
    exact .ended
  | cons byte rest =>
    rcases hclass : t.alphabet.classify byte with _ | _ | category
    · have hturn : t.turn (between before (byte :: rest))
          = .failed none (.unexpectedByte byte (.after before)) := by
        simp [turn, hclass]
      rw [hturn]
      exact .unknown hclass
    · have hturn : t.turn (between before (byte :: rest))
          = .onward none (between (before ++ [byte]) rest) := by
        simp [turn, hclass, Cursor.advance_between_cons]
      rw [hturn]
      exact .ignored hclass
    · rw [turn_of_opens hclass]
      obtain ⟨used, left, hahead, hnext⟩ :=
        ((t.dispatch category).forward (between before (byte :: rest))).exists_used
      cases used with
      | nil =>
        have hsame : ((t.dispatch category).run (between before (byte :: rest))).2
            = between before (byte :: rest) := by
          rw [hnext, hahead, List.append_nil, List.nil_append]
        simp only [hsame, if_pos, Cursor.location_between]
        exact .stalled hclass (Prod.ext rfl hsame)
      | cons first more =>
        obtain ⟨rfl, hrest⟩ := List.cons_eq_cons.1 (hahead.trans (List.cons_append ..))
        have hmoved := Cursor.between_append_cons_ne before byte more left (byte :: rest)
        simp only [hnext, if_neg hmoved]
        exact .dispatched hclass hrest (Prod.ext rfl hnext)

/-- The turn at a head is one of the five for the division there. -/
theorem turnsTo_of_turn_eq {t : Tokenizer} {c : Cursor} {before ahead : List Byte} {turn : Turn}
    (hcursor : c = between before ahead) (hturn : t.turn c = turn) :
    TurnsTo t before ahead turn := by
  have hturns := t.turnsTo_turn before ahead
  rwa [← hcursor, hturn] at hturns

/-- A turn is the one that it is shown to be. -/
theorem TurnsTo.turn_eq {t : Tokenizer} {before ahead : List Byte} {turn : Turn}
    (h : TurnsTo t before ahead turn) : t.turn (between before ahead) = turn := by
  cases h with
  | ended => simp [Tokenizer.turn]
  | unknown hclass => simp [Tokenizer.turn, hclass]
  | ignored hclass => simp [Tokenizer.turn, hclass, Cursor.advance_between_cons]
  | stalled hclass hrun => simp [turn_of_opens hclass, hrun]
  | @dispatched byte rest more left category tokens hclass hrest hrun =>
    rw [turn_of_opens hclass, hrun]
    exact if_neg (Cursor.between_append_cons_ne before byte more left (byte :: rest))

/-! ## Rules that do not count -/

/-- Tokenizers that agree on the category of the byte ahead take the same turn. -/
theorem TurnsTo.congr {t t' : Tokenizer} {before ahead : List Byte} {turn : Turn}
    (h : t.TurnsTo before ahead turn) (halphabet : t'.alphabet = t.alphabet)
    (hrules : ∀ b ∈ ahead, ∀ category, t.alphabet.classify b = some (.opens category) →
      t'.rules category = t.rules category) :
    t'.TurnsTo before ahead turn := by
  -- the category of the byte ahead has the same rules, so its dispatch is the same
  have hsame : ∀ byte rest category, ahead = byte :: rest →
      t.alphabet.classify byte = some (.opens category) →
      t'.dispatch category = t.dispatch category
        ∧ t'.dispatchAt before byte category = t.dispatchAt before byte category := by
    rintro byte rest category rfl hclass
    have hcategory := hrules byte List.mem_cons_self category hclass
    constructor
    · rw [dispatch, dispatch, hcategory]
    · funext tokens
      rw [dispatchAt, dispatchAt, ruleCount, ruleCount, hcategory]
  cases h with
  | ended => exact .ended
  | unknown hclass => exact .unknown (halphabet ▸ hclass)
  | ignored hclass => exact .ignored (halphabet ▸ hclass)
  | stalled hclass hrun =>
    obtain ⟨hdispatch, hnote⟩ := hsame _ _ _ rfl hclass
    rw [← hnote]
    exact .stalled (halphabet ▸ hclass) (hdispatch ▸ hrun)
  | dispatched hclass hrest hrun =>
    obtain ⟨hdispatch, hnote⟩ := hsame _ _ _ rfl hclass
    rw [← hnote]
    exact .dispatched (halphabet ▸ hclass) hrest (hdispatch ▸ hrun)

/-! ## What leads onward -/

/-- A turn that leads onward takes at least one byte, and leaves a cursor of the same form. -/
theorem TurnsTo.exists_used {t : Tokenizer} {before ahead : List Byte}
    {dispatch : Option Dispatch} {next : Cursor}
    (h : TurnsTo t before ahead (.onward dispatch next)) :
    ∃ used left, ahead = used ++ left ∧ used ≠ [] ∧ next = between (before ++ used) left := by
  cases h with
  | ignored hclass => exact ⟨[_], _, rfl, List.cons_ne_nil _ _, rfl⟩
  | dispatched hclass hrest hrun =>
    exact ⟨_ :: _, _, by rw [hrest]; rfl, List.cons_ne_nil _ _, rfl⟩

end ByteTokenizer.Tokenizer
