/-
  EXCHANGE: what a run has not read does not matter to it.

  Let a content be `front ++ rest`.  As long as a run has taken bytes of `front` only, it would
  have done the same with other bytes in the place of `rest`, provided that the first of these is
  the same byte or that there are none.  The first byte has to be kept because a rule may look at
  it to find the end of its run; no rule looks further.

  1. One dispatch, one turn, and then all heads up to the end of `front` are the same
     (`run_dispatch_exchange`, `TurnsTo.exchange`, `head_exchange`).

  2. A turn that fails takes nothing at all, so it fails with any bytes behind the first
     (`TurnsTo.exchange_failed`).

  Together these say that a failure is settled as soon as the byte that it names has been read:
  no later byte can repair, move or change it (`tokenize_error_exchange`).
-/
import ByteTokenizer.Proofs.Rule.Parts
import ByteTokenizer.Proofs.Tokenizer.Head

namespace ByteTokenizer

open Cursor (between)

section Exchange

variable {alphabet : Alphabet} {patterns : Category → List Pattern} {rest rest' : List Byte}

/-! ## Up to a head -/

section Onward

variable (hhead : ∀ b ∈ rest'.head?, b ∈ rest.head?)
include hhead

/-- A dispatch of patterns that takes bytes of `front` only does the same in front of `rest'`. -/
theorem run_dispatch_exchange {category : Category} {before used left : List Byte}
    {tokens : List Token} (front : List Byte)
    (hrun : ((Tokenizer.ofPatterns alphabet patterns).dispatch category).run
        (between before (front ++ rest)) = (tokens, between (before ++ used) left))
    (hle : used.length ≤ front.length) :
    ∃ left', front = used ++ left' ∧ left = left' ++ rest
      ∧ ((Tokenizer.ofPatterns alphabet patterns).dispatch category).run
          (between before (front ++ rest'))
        = (tokens, between (before ++ used) (left' ++ rest')) := by
  obtain ⟨htokens, hused, hahead⟩ := Tokenizer.run_dispatch_ofPatterns_iff.1 hrun
  have hprefix : used <+: front :=
    List.prefix_of_prefix_length_le ⟨left, hahead.symm⟩ (List.prefix_append front rest) hle
  obtain ⟨left', hfront⟩ := hprefix
  have hfits : (Pattern.taken category (patterns category) (front ++ rest)).length
      ≤ front.length := by
    rw [← hused]
    exact hle
  obtain ⟨hsame, hsame'⟩ := Pattern.dispatched_append_congr hhead hfits
  refine ⟨left', hfront.symm, ?_, ?_⟩
  · rw [← hfront, List.append_assoc] at hahead
    exact (List.append_cancel_left hahead).symm
  · rw [Tokenizer.run_dispatch_ofPatterns_iff, hsame, hsame', ← List.append_assoc, hfront]
    exact ⟨htokens, hused, rfl⟩

/-- A turn that takes bytes of `front` only does the same in front of `rest'`. -/
theorem Tokenizer.TurnsTo.exchange {before front : List Byte} {dispatch : Option Dispatch}
    {next : Cursor}
    (h : (ofPatterns alphabet patterns).TurnsTo before (front ++ rest) (.onward dispatch next))
    (hle : next.offset ≤ before.length + front.length) :
    ∃ used left, front = used ++ left ∧ next = between (before ++ used) (left ++ rest)
      ∧ (ofPatterns alphabet patterns).TurnsTo before (front ++ rest')
        (.onward dispatch (between (before ++ used) (left ++ rest'))) := by
  obtain ⟨used, left, -, hne, rfl⟩ := h.exists_used
  have hpos := List.length_pos_iff.2 hne
  rw [Cursor.offset_between, List.length_append] at hle
  cases front with
  | nil =>
    rw [List.length_nil] at hle
    omega
  | cons byte front =>
    rw [List.cons_append] at h
    generalize hnext : between (before ++ used) left = next at h
    cases h with
    | ignored hclass =>
      exact ⟨[byte], front, rfl, hnext ▸ rfl, .ignored hclass⟩
    | @dispatched _ _ more left' category tokens hclass hrest hrun =>
      have hused : used = byte :: more :=
        List.append_cancel_left (Cursor.between_inj.1 hnext).1
      have hfits : (byte :: more).length ≤ (byte :: front).length := by
        rw [← hused]
        omega
      obtain ⟨left'', hfront, rfl, hrun'⟩ :=
        run_dispatch_exchange hhead (byte :: front) hrun hfits
      have hfront' : front = more ++ left'' := (List.cons.inj hfront).2
      have hrest' : front ++ rest' = more ++ (left'' ++ rest') := by
        rw [hfront', List.append_assoc]
      exact ⟨byte :: more, left'', hfront, rfl, .dispatched hclass hrest' hrun'⟩

/-- The heads up to the end of `front` are the same in front of `rest'`. -/
theorem head_exchange {front : List Byte} {n : Nat} {h : Head}
    (hstart : (Tokenizer.ofPatterns alphabet patterns).steady.head (front ++ rest) n = some h)
    (hle : h.cursor.offset ≤ front.length) :
    ∃ before left, front = before ++ left ∧ h.cursor = between before (left ++ rest)
      ∧ (Tokenizer.ofPatterns alphabet patterns).steady.head (front ++ rest') n
        = some ⟨h.dispatches, between before (left ++ rest')⟩ := by
  induction n generalizing h with
  | zero =>
    obtain rfl := Option.some.inj hstart
    refine ⟨[], front, rfl, Cursor.advance_fresh (front ++ rest), ?_⟩
    show some (Head.mk [] (Cursor.fresh (front ++ rest')).advance) = _
    rw [Cursor.advance_fresh]
  | succ n ih =>
    obtain ⟨h, dispatch, next, hprev, hturn, rfl⟩ := Varying.exists_turn_of_head_succ hstart
    -- offsets grow, so the head before this one is in `front` too
    have hlt := (Varying.offset_lt_of_onward hprev hturn).1
    obtain ⟨before, left, hfront, hcursor, hsame⟩ :=
      ih hprev (Nat.le_trans (Nat.le_of_lt hlt) hle)
    have hturns := Tokenizer.turnsTo_of_turn_eq hcursor hturn
    have hlen : front.length = before.length + left.length := by
      rw [hfront, List.length_append]
    obtain ⟨used, left', rfl, rfl, hturns'⟩ := hturns.exchange hhead (hlen ▸ hle)
    have hnext := Varying.head_succ hsame hturns'.turn_eq
    exact ⟨before ++ used, left', by rw [hfront, List.append_assoc], rfl, hnext⟩

end Onward

/-! ## At the failure -/

/-- A turn that fails takes no byte, and fails alike whatever follows the first byte ahead. -/
theorem Tokenizer.TurnsTo.exchange_failed {before : List Byte} {byte : Byte}
    {dispatch : Option Dispatch} {failure : Failure}
    (h : (ofPatterns alphabet patterns).TurnsTo before (byte :: rest) (.failed dispatch failure))
    (rest' : List Byte) :
    (ofPatterns alphabet patterns).TurnsTo before (byte :: rest') (.failed dispatch failure) := by
  cases h with
  | unknown hclass => exact .unknown hclass
  | @stalled _ _ category tokens hclass hrun =>
    have hnone : ((ofPatterns alphabet patterns).dispatch category).run
        (between before ([] ++ byte :: rest))
          = (tokens, between (before ++ []) (byte :: rest)) := by
      rw [List.nil_append, List.append_nil]
      exact hrun
    have hsame : ∀ b ∈ (byte :: rest').head?, b ∈ (byte :: rest).head? := fun b hb => hb
    obtain ⟨left, hleft, -, hrun'⟩ := run_dispatch_exchange hsame [] hnone (Nat.le_refl 0)
    obtain rfl : left = [] := hleft.symm
    rw [List.nil_append, List.append_nil] at hrun'
    exact .stalled hclass hrun'

/-- The failure of a turn names the place of the turn's head, at which there is a byte. -/
theorem Tokenizer.TurnsTo.place_of_failed {t : Tokenizer} {before ahead : List Byte}
    {dispatch : Option Dispatch} {failure : Failure}
    (h : t.TurnsTo before ahead (.failed dispatch failure)) :
    failure.location? = some (.after before) ∧ ahead ≠ [] := by
  cases h with
  | unknown hclass => exact ⟨rfl, List.cons_ne_nil _ _⟩
  | stalled hclass hrun => exact ⟨rfl, List.cons_ne_nil _ _⟩

/-- **Failures depend only on what was read.**  If tokenizing with patterns fails at the byte
    behind `front`, it fails in the same way whatever other bytes follow that byte. -/
theorem tokenize_error_exchange {front rest : List Byte} {byte : Byte} {failure : Failure}
    (hfail : (Tokenizer.ofPatterns alphabet patterns).tokenize (front ++ byte :: rest)
      = .error failure)
    (hplace : failure.location?.map Location.offset = some front.length) (rest' : List Byte) :
    (Tokenizer.ofPatterns alphabet patterns).tokenize (front ++ byte :: rest')
      = .error failure := by
  rw [Tokenizer.tokenize, ← Varying.run_steady] at hfail ⊢
  obtain ⟨n, h, dispatch, hhead, hturn⟩ := Varying.exists_head_of_result_error hfail
  -- the failing turn begins at the byte that the failure names
  obtain ⟨before, ahead, hcontent, -, hcursor⟩ := Varying.exists_between_of_head hhead
  have hturns := Tokenizer.turnsTo_of_turn_eq hcursor hturn
  rw [hturns.place_of_failed.1, Option.map_some, Option.some.injEq] at hplace
  obtain ⟨rfl, rfl⟩ := List.append_inj hcontent hplace.symm
  -- up to there the run is the same, and there it fails alike
  have hsame : ∀ b ∈ (byte :: rest').head?, b ∈ (byte :: rest).head? := fun b hb => hb
  have hle : h.cursor.offset ≤ front.length :=
    Nat.le_of_eq (hcursor ▸ Cursor.offset_between front _)
  obtain ⟨before, left, hfront, hcursor', hhead'⟩ := head_exchange hsame hhead hle
  obtain ⟨rfl, hleft⟩ := Cursor.between_inj.1 (hcursor.symm.trans hcursor')
  obtain rfl : left = [] := List.append_cancel_left (hfront.symm.trans (List.append_nil _).symm)
  have hturn' := (hturns.exchange_failed rest').turn_eq
  rw [Varying.run_of_failed hhead' hturn']
  rfl

end Exchange

/-- Runs of digits are numbers; the minus sign is a delimiter for which there is no rule. -/
def unsigned : Tokenizer := .ofPatterns
  { numbers := .digits, delimiters := .listed [0x2d] }
  fun
    | .number => [⟨.number, .rangeRun .digits .never⟩]
    | .string | .identifier | .delimiter | .comment => []

-- 1, 2, minus: the last byte stalls, and it does so as well with 3, 4 behind it
theorem tokenize_error_exchange_unsigned :
    unsigned.tokenize [0x31, 0x32, 0x2d] = .error (.stalled .delimiter ⟨1, 3, 2⟩)
      ∧ unsigned.tokenize [0x31, 0x32, 0x2d, 0x33, 0x34]
        = .error (.stalled .delimiter ⟨1, 3, 2⟩) := by
  have hfail : unsigned.tokenize ([0x31, 0x32] ++ 0x2d :: [])
      = .error (.stalled .delimiter ⟨1, 3, 2⟩) := by cbv
  exact ⟨hfail, tokenize_error_exchange hfail rfl [0x33, 0x34]⟩

end ByteTokenizer
