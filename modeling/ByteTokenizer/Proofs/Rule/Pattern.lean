/-
  PATTERNS ON A CURSOR: what a ready-made rule does with the bytes ahead of it.

  A pattern's rule looks at nothing but the bytes ahead.  It divides them by its shape, gives the
  body as the value of its token, and takes the cursor over the bytes used up: the body and, for
  a delimited shape, the closing byte behind it (`run_rule`, `accepts_of_closer`).

  The shapes that take a run of accepted bytes, whether a range or points say which, divide alike
  (`Shape.run?`).  Such a run is found where the bytes behind it begin with one that is not
  accepted, or end (`split_append_of_run?`).

  How a shape divides does not depend on what lies far behind the bytes it uses up.  It may look
  at the byte directly behind them, as a run does to find its end, but at no byte further on, and
  a shape that stops in front of a byte stops as well at the end of the input
  (`split_append_congr`).
-/
import ByteTokenizer.Proofs.Cursor.Between
import ByteTokenizer.Rule.Shape

namespace ByteTokenizer

open Cursor (between)

/-! ## Running the rule -/

/-- The rule of a pattern: the token of the body, and the cursor behind the bytes used up. -/
theorem Pattern.run_rule (p : Pattern) (before ahead : List Byte) :
    ∃ rest, ahead = (p.shape.split ahead).used ++ rest
      ∧ p.rule.run (between before ahead)
        = (⟨p.kind, (p.shape.split ahead).body⟩,
          between (before ++ (p.shape.split ahead).used) rest) := by
  obtain ⟨rest, hrest⟩ := p.shape.used_split ahead
  refine ⟨rest, hrest.symm, ?_⟩
  have hadvance := Cursor.advanceBy_between before (p.shape.split ahead).used rest
  rw [hrest] at hadvance
  show ((⟨p.kind, (p.shape.split (between before ahead).ahead).body⟩ : Token),
    (between before ahead).advanceBy (p.shape.split (between before ahead).ahead).used.length) = _
  rw [Cursor.ahead_between, hadvance]

/-- Without a current byte a rule finds nothing and leaves the cursor as it is. -/
theorem Pattern.run_rule_of_none (p : Pattern) {c : Cursor} (hcurrent : c.current = none) :
    p.rule.run c = (⟨p.kind, []⟩, c) := by
  have hsplit : p.shape.split [] = { body := [] } := by cases p.shape <;> rfl
  show ((⟨p.kind, (p.shape.split c.ahead).body⟩ : Token),
    c.advanceBy (p.shape.split c.ahead).used.length) = _
  rw [Cursor.ahead_eq_nil hcurrent, hsplit]
  rfl

/-- The rule of a pattern whose shape puts `body` into the body and uses up nothing else. -/
theorem Pattern.run_rule_bare {p : Pattern} {body left : List Byte}
    (hsplit : p.shape.split (body ++ left) = { body }) (before : List Byte) :
    p.rule.run (between before (body ++ left))
      = (⟨p.kind, body⟩, between (before ++ body) left) := by
  obtain ⟨rest, hrest, hrun⟩ := p.run_rule before (body ++ left)
  have hused : (p.shape.split (body ++ left)).used = body := by
    rw [hsplit]
    exact List.append_nil body
  rw [hused] at hrest hrun
  rw [hrun, hsplit, List.append_cancel_left hrest]

/-- The rule of a pattern whose shape also uses up a closing byte. -/
theorem Pattern.run_rule_closed {p : Pattern} {body left : List Byte} {q : Byte}
    (hsplit : p.shape.split (body ++ q :: left) = { body, closer := some q })
    (before : List Byte) :
    p.rule.run (between before (body ++ q :: left))
      = (⟨p.kind, body⟩, between (before ++ (body ++ [q])) left) := by
  obtain ⟨rest, hrest, hrun⟩ := p.run_rule before (body ++ q :: left)
  have hused : (p.shape.split (body ++ q :: left)).used = body ++ [q] := by
    rw [hsplit]
    rfl
  rw [hused] at hrest hrun
  rw [List.append_assoc] at hrest
  have hleft : q :: left = [q] ++ rest := List.append_cancel_left hrest
  rw [hrun, hsplit, (List.cons.inj hleft).2]
  rfl

/-- A single byte is always taken. -/
theorem Pattern.run_single_ne {kind : Kind} {c : Cursor} {byte : Byte}
    (hbyte : c.current = some byte) : ((Pattern.rule ⟨kind, .single⟩).run c).2 ≠ c := by
  obtain ⟨before, first, rest, rfl⟩ :=
    Cursor.exists_between_of_current (c := c) (by simp [hbyte])
  obtain ⟨left, -, hrun⟩ := Pattern.run_rule ⟨kind, .single⟩ before (first :: rest)
  rw [hrun]
  exact Cursor.between_append_cons_ne before first [] left (first :: rest)

/-! ## Runs of accepted bytes -/

/-- Whatever is ahead begins with a run of accepted bytes, and a byte that is not accepted or
    none at all comes next. -/
theorem exists_accepted_run {α : Type} (test : α → Bool) (ahead : List α) :
    ∃ body left, ahead = body ++ left ∧ (∀ b ∈ body, test b = true)
      ∧ ∀ b ∈ left.head?, test b = false := by
  induction ahead with
  | nil => exact ⟨[], [], rfl, by simp, by simp⟩
  | cons b rest ih =>
    cases htest : test b with
    | false => exact ⟨[], b :: rest, rfl, by simp, by simpa using htest⟩
    | true =>
      obtain ⟨body, left, rfl, hbody, hstop⟩ := ih
      exact ⟨b :: body, left, rfl, by simpa [htest] using hbody, hstop⟩

/-- Such a run is what is taken. -/
theorem takeWhile_append_of_stop {test : Byte → Bool} {body left : List Byte}
    (hbody : ∀ b ∈ body, test b = true) (hstop : ∀ b ∈ left.head?, test b = false) :
    (body ++ left).takeWhile test = body := by
  have hnone : left.takeWhile test = [] := by
    cases left with
    | nil => rfl
    | cons b left => rw [List.takeWhile_cons_of_neg (by simp [hstop b rfl])]
  rw [List.takeWhile_append_of_pos hbody, hnone, List.append_nil]

/-- The bytes of which the shape takes a run, if it takes a run of accepted bytes. -/
def Shape.run? : Shape → Option (Byte → Bool)
  | rangeRun range extra => some fun b => range.accepts b || extra.accepts b
  | pointsRun points => some points.accepts
  | single | delimited _ _ | line => none

theorem Shape.split_of_run? {shape : Shape} {test : Byte → Bool} (h : shape.run? = some test)
    (ahead : List Byte) : shape.split ahead = { body := ahead.takeWhile test } := by
  cases shape with
  | rangeRun range extra => exact Option.some.inj h ▸ rfl
  | pointsRun points => exact Option.some.inj h ▸ rfl
  | single => exact nomatch h
  | delimited close escape => exact nomatch h
  | line => exact nomatch h

/-- Such a shape takes the accepted bytes in front of one that is not accepted or of the end. -/
theorem Shape.split_append_of_run? {shape : Shape} {test : Byte → Bool}
    (h : shape.run? = some test) {body left : List Byte} (hbody : ∀ b ∈ body, test b = true)
    (hstop : ∀ b ∈ left.head?, test b = false) : shape.split (body ++ left) = { body } := by
  rw [split_of_run? h, takeWhile_append_of_stop hbody hstop]

/-- Without extra points a run has the bytes of the range. -/
theorem Shape.run?_rangeRun_never (range : Range) :
    (rangeRun range .never).run? = some range.accepts :=
  congrArg some (funext fun b => Bool.or_false (range.accepts b))

/-! ## Closing bytes -/

@[simp] theorem Split.used_cons (b : Byte) (s : Split) : (s.cons b).used = b :: s.used := rfl

theorem Split.accepts_of_closer_delimited {close : Byte → Bool} {escape : Option Byte}
    {kept : Bool} {ahead : List Byte} {b : Byte}
    (hcloser : (Split.delimited close escape kept ahead).closer = some b) : close b = true := by
  induction ahead generalizing kept with
  | nil => exact nomatch hcloser
  | cons first rest ih =>
    rw [Split.delimited] at hcloser
    split at hcloser
    · exact ih hcloser
    · split at hcloser
      · next hclose => exact Option.some.inj hcloser ▸ hclose
      · exact ih hcloser

/-- Only a delimited shape uses up a closing byte, and it is one of the shape's. -/
theorem Shape.accepts_of_closer {shape : Shape} {ahead : List Byte} {b : Byte}
    (hcloser : (shape.split ahead).closer = some b) :
    ∃ close escape, shape = .delimited close escape ∧ close.accepts b = true := by
  cases shape with
  | delimited close escape =>
    exact ⟨close, escape, rfl, Split.accepts_of_closer_delimited hcloser⟩
  | rangeRun range extra => exact nomatch hcloser
  | pointsRun points => exact nomatch hcloser
  | single => exact nomatch hcloser
  | line => exact nomatch hcloser

/-! ## What lies behind does not matter -/

section Behind

variable {u v v' : List Byte} (hhead : ∀ b ∈ v'.head?, b ∈ v.head?)
include hhead

/-- If nothing follows, nothing follows in the other list either. -/
theorem eq_nil_of_head?_mem (hnil : v = []) : v' = [] := by
  cases v' with
  | nil => rfl
  | cons b v' =>
    have hmem := hhead b rfl
    rw [hnil] at hmem
    exact nomatch hmem

theorem takeWhile_append_congr {test : Byte → Bool}
    (hle : ((u ++ v).takeWhile test).length ≤ u.length) :
    (u ++ v').takeWhile test = (u ++ v).takeWhile test := by
  rw [List.takeWhile_append] at hle ⊢
  rw [List.takeWhile_append]
  split
  · next hall =>
    rw [if_pos hall, List.length_append] at hle
    have hstop : v.takeWhile test = [] := List.eq_nil_of_length_eq_zero (by omega)
    have hstop' : v'.takeWhile test = [] := by
      cases v' with
      | nil => rfl
      | cons b v' =>
        obtain ⟨w, rfl⟩ := List.head?_eq_some_iff.1 (hhead b rfl)
        cases htest : test b with
        | false => rw [List.takeWhile_cons_of_neg (by simp [htest])]
        | true => simp [htest] at hstop
    rw [hstop, hstop']
  · rfl

theorem Split.delimited_append_congr {close : Byte → Bool} {escape : Option Byte} {kept : Bool}
    (hle : (Split.delimited close escape kept (u ++ v)).used.length ≤ u.length) :
    Split.delimited close escape kept (u ++ v') = Split.delimited close escape kept (u ++ v) := by
  induction u generalizing kept with
  | nil =>
    -- a delimited shape takes at least one byte, so nothing can follow
    have hnil : v = [] := by
      cases v with
      | nil => rfl
      | cons b v =>
        rw [List.nil_append, Split.delimited] at hle
        split at hle
        · exact absurd hle (by simp)
        · split at hle
          · exact absurd hle (by simp [Split.used])
          · exact absurd hle (by simp)
    rw [hnil, eq_nil_of_head?_mem hhead hnil]
  | cons b u ih =>
    simp only [List.cons_append, Split.delimited] at hle ⊢
    by_cases hkept : kept = true
    · rw [if_pos hkept] at hle ⊢
      rw [if_pos hkept, ih (Nat.le_of_succ_le_succ hle)]
    · rw [if_neg hkept] at hle ⊢
      rw [if_neg hkept]
      by_cases hclose : close b = true
      · rw [if_pos hclose, if_pos hclose]
      · rw [if_neg hclose] at hle ⊢
        rw [if_neg hclose, ih (Nat.le_of_succ_le_succ hle)]

/-- A shape that uses up no more than `u` divides alike whatever follows `u`, so long as the
    first byte that follows is the same or there is none. -/
theorem Shape.split_append_congr {shape : Shape}
    (hle : (shape.split (u ++ v)).used.length ≤ u.length) :
    shape.split (u ++ v') = shape.split (u ++ v) := by
  cases shape with
  | rangeRun range extra =>
    simp only [split, Split.used, Option.toList_none, List.append_nil] at hle ⊢
    rw [takeWhile_append_congr hhead hle]
  | pointsRun points =>
    simp only [split, Split.used, Option.toList_none, List.append_nil] at hle ⊢
    rw [takeWhile_append_congr hhead hle]
  | single =>
    cases u with
    | nil =>
      have hnil : v = [] := by
        cases v with
        | nil => rfl
        | cons b v => exact absurd hle (by simp [split, Split.used])
      rw [hnil, eq_nil_of_head?_mem hhead hnil]
    | cons b u => rfl
  | delimited close escape => exact Split.delimited_append_congr hhead hle
  | line =>
    simp only [split, Split.used, Option.toList_none, List.append_nil] at hle ⊢
    rw [takeWhile_append_congr hhead hle]

end Behind

end ByteTokenizer
