/-
  DISSECTIONS: the one way to take a delimited text apart.

  A dissection of the bytes ahead is a list of units and what comes behind them: a closing byte
  with whatever follows it, or nothing, or an escape byte that has nothing to keep.  Any bytes
  have exactly one dissection (`existsUnique_dissection`).  That there is one is the grammar of
  delimited bodies; that there is no other one is shown by taking the bytes apart from the left,
  one unit at a time (`Dissection.ofBytes`): the first byte decides whether it is a unit of its
  own, or the first half of one, or what comes behind the units.

  A delimited rule follows the dissection of what is ahead of the cursor
  (`delimited_follows_dissection`).  Without an escape byte, or with one that closes, it is a run
  of bytes that do not close and one advance.
-/
import ByteTokenizer.Proofs.Rule.Delimited
import ByteTokenizer.Proofs.Rule.Pattern
import Mathlib.Logic.ExistsUnique

namespace ByteTokenizer

open Cursor (between)

/-- A unit: a byte that neither closes nor escapes, or an escape byte that does not close and the
    byte behind it. -/
inductive BodyUnit (close : Byte → Bool) (escape : Option Byte) : List Byte → Prop where
  | plain {b : Byte} (hopen : close b = false) (hplain : escape ≠ some b) :
      BodyUnit close escape [b]
  | pair {e b : Byte} (hopen : close e = false) (hescape : escape = some e) :
      BodyUnit close escape [e, b]

/-- What comes behind the units. -/
inductive BodyEnd where
  /-- A closing byte, and whatever follows it. -/
  | closed (q : Byte) (rest : List Byte)
  /-- Nothing, or one escape byte. -/
  | unclosed (lone : Option Byte)

/-- The bytes behind the units. -/
def BodyEnd.bytes : BodyEnd → List Byte
  | closed q rest => q :: rest
  | unclosed lone => lone.toList

/-- A delimited text taken apart. -/
structure Dissection where
  units : List (List Byte)
  ending : BodyEnd

namespace Dissection

variable {close : Byte → Bool} {escape : Option Byte}

/-- The dissection takes the bytes apart by the closing bytes and the escape byte. -/
structure Of (close : Byte → Bool) (escape : Option Byte) (ahead : List Byte)
    (d : Dissection) : Prop where
  bytes_eq : d.units.flatten ++ d.ending.bytes = ahead
  units : ∀ unit ∈ d.units, BodyUnit close escape unit
  closes : ∀ q rest, d.ending = .closed q rest → close q = true
  escapes : ∀ e, d.ending = .unclosed (some e) → escape = some e ∧ close e = false

/-- The same dissection with one more unit in front. -/
def cons (unit : List Byte) (d : Dissection) : Dissection := { d with units := unit :: d.units }

/-- Takes the bytes apart from the left. -/
def ofBytes (close : Byte → Bool) (escape : Option Byte) : List Byte → Dissection
  | [] => ⟨[], .unclosed none⟩
  | b :: rest =>
    if close b then ⟨[], .closed b rest⟩
    else if escape == some b then
      match rest with
      | [] => ⟨[], .unclosed (some b)⟩
      | escaped :: rest => (ofBytes close escape rest).cons [b, escaped]
    else (ofBytes close escape rest).cons [b]

theorem ofBytes_closed {q : Byte} (hclose : close q = true) (rest : List Byte) :
    ofBytes close escape (q :: rest) = ⟨[], .closed q rest⟩ := by
  rw [ofBytes.eq_def]
  exact if_pos hclose

theorem ofBytes_lone {e : Byte} (hopen : close e = false) (hescape : escape = some e) :
    ofBytes close escape [e] = ⟨[], .unclosed (some e)⟩ := by
  rw [ofBytes, hopen, if_neg Bool.false_ne_true, if_pos (beq_iff_eq.2 hescape)]

theorem ofBytes_pair {e b : Byte} (hopen : close e = false) (hescape : escape = some e)
    (rest : List Byte) :
    ofBytes close escape (e :: b :: rest) = (ofBytes close escape rest).cons [e, b] := by
  rw [ofBytes, hopen, if_neg Bool.false_ne_true, if_pos (beq_iff_eq.2 hescape)]

theorem ofBytes_plain {b : Byte} (hopen : close b = false) (hplain : escape ≠ some b)
    (rest : List Byte) :
    ofBytes close escape (b :: rest) = (ofBytes close escape rest).cons [b] := by
  rw [ofBytes.eq_def]
  show (if close b then _ else if escape == some b then _ else _) = _
  rw [hopen, if_neg Bool.false_ne_true, if_neg (mt beq_iff_eq.1 hplain)]

/-- There is no dissection but the one from the left. -/
theorem Of.eq_ofBytes {ahead : List Byte} {d : Dissection} (h : d.Of close escape ahead) :
    d = ofBytes close escape ahead := by
  obtain ⟨units, ending⟩ := d
  obtain ⟨rfl, hunits, hcloses, hescapes⟩ := h
  induction units with
  | nil =>
    match ending with
    | .closed q rest => exact (ofBytes_closed (hcloses q rest rfl) rest).symm
    | .unclosed none => rfl
    | .unclosed (some e) =>
      obtain ⟨hescape, hopen⟩ := hescapes e rfl
      exact (ofBytes_lone hopen hescape).symm
  | cons unit units ih =>
    have hrest := ih (fun unit hunit => hunits unit (List.mem_cons_of_mem _ hunit)) hcloses hescapes
    show Dissection.cons unit ⟨units, ending⟩
      = ofBytes close escape ((unit ++ units.flatten) ++ ending.bytes)
    rw [List.append_assoc, hrest]
    cases hunits unit List.mem_cons_self with
    | plain hopen hplain => exact (ofBytes_plain hopen hplain _).symm
    | pair hopen hescape => exact (ofBytes_pair hopen hescape _).symm

end Dissection

/-! ## Bodies and their units -/

section Units

variable {close : Byte → Bool} {escape : Option Byte}

/-- Units put together are a body. -/
theorem Units.of_flatten {units : List (List Byte)}
    (h : ∀ unit ∈ units, BodyUnit close escape unit) : Units close escape units.flatten := by
  induction units with
  | nil => exact .nil
  | cons unit units ih =>
    have hrest := ih fun unit hunit => h unit (List.mem_cons_of_mem _ hunit)
    cases h unit List.mem_cons_self with
    | plain hopen hplain => exact .plain hopen hplain hrest
    | pair hopen hescape => exact .pair hopen hescape hrest

/-- A body is put together from units. -/
theorem Units.exists_flatten_eq {body : List Byte} (h : Units close escape body) :
    ∃ units : List (List Byte),
      (∀ unit ∈ units, BodyUnit close escape unit) ∧ units.flatten = body := by
  induction h with
  | nil => exact ⟨[], by simp, rfl⟩
  | plain hopen hplain hbody ih =>
    obtain ⟨units, hunits, rfl⟩ := ih
    exact ⟨[_] :: units, List.forall_mem_cons.2 ⟨.plain hopen hplain, hunits⟩, rfl⟩
  | pair hopen hescape hbody ih =>
    obtain ⟨units, hunits, rfl⟩ := ih
    exact ⟨[_, _] :: units, List.forall_mem_cons.2 ⟨.pair hopen hescape, hunits⟩, rfl⟩

/-- Without an escape byte, bytes that do not close are a body. -/
theorem Units.of_open {body : List Byte} (h : ∀ b ∈ body, close b = false) :
    Units close none body := by
  induction body with
  | nil => exact .nil
  | cons b body ih =>
    obtain ⟨hopen, hbody⟩ := List.forall_mem_cons.1 h
    exact .plain hopen (Option.some_ne_none b).symm (ih hbody)

/-- **There is one dissection** of any bytes. -/
theorem existsUnique_dissection (close : Byte → Bool) (escape : Option Byte) (ahead : List Byte) :
    ∃! d : Dissection, d.Of close escape ahead := by
  have hexists : ∃ d : Dissection, d.Of close escape ahead := by
    cases delimited_grammar close escape ahead with
    | @closed body q rest hbody hclose =>
      obtain ⟨units, hunits, rfl⟩ := hbody.exists_flatten_eq
      refine ⟨⟨units, .closed q rest⟩, rfl, hunits, ?_, fun e he => (nomatch he)⟩
      rintro _ _ ⟨rfl⟩
      exact hclose
    | unclosed hbody =>
      obtain ⟨units, hunits, rfl⟩ := hbody.exists_flatten_eq
      exact ⟨⟨units, .unclosed none⟩, List.append_nil _, hunits, fun q rest hq => (nomatch hq),
        fun e he => (nomatch he)⟩
    | @cut body e hbody hopen hescape =>
      obtain ⟨units, hunits, rfl⟩ := hbody.exists_flatten_eq
      refine ⟨⟨units, .unclosed (some e)⟩, rfl, hunits, fun q rest hq => (nomatch hq), ?_⟩
      rintro _ ⟨rfl⟩
      exact ⟨hescape, hopen⟩
  obtain ⟨d, hd⟩ := hexists
  exact ⟨d, hd, fun other hother => hother.eq_ofBytes.trans hd.eq_ofBytes.symm⟩

end Units

/-! ## Running the rule -/

variable {close : Points} {escape : Option Byte} (kind : Kind)

/-- A rule that uses up a closing byte has a current byte, and stops behind the closing one. -/
theorem run_rule_of_closed {c : Cursor} {units : List (List Byte)} {q : Byte} {rest : List Byte}
    (h : Dissection.Of close.accepts escape c.ahead ⟨units, .closed q rest⟩) :
    ∃ before, c = between before (units.flatten ++ q :: rest)
      ∧ (Pattern.rule ⟨kind, .delimited close escape⟩).run c
        = (⟨kind, units.flatten⟩, between (before ++ (units.flatten ++ [q])) rest) := by
  have hahead : units.flatten ++ q :: rest = c.ahead := h.bytes_eq
  have hcurrent : c.current ≠ none := by
    intro hnone
    rw [Cursor.ahead_eq_nil hnone] at hahead
    simp at hahead
  obtain ⟨before, byte, behind, rfl⟩ := Cursor.exists_between_of_current hcurrent
  rw [Cursor.ahead_between] at hahead
  refine ⟨before, by rw [hahead], ?_⟩
  have hsplit : (Shape.delimited close escape).split (units.flatten ++ q :: rest)
      = { body := units.flatten, closer := some q } :=
    Split.delimited_closed (.of_flatten h.units) (h.closes q rest rfl) rest
  rw [← hahead]
  exact Pattern.run_rule_closed hsplit before

/-- A rule that finds no closing byte takes all there is. -/
theorem run_rule_of_unclosed {c : Cursor} {units : List (List Byte)} {lone : Option Byte}
    (h : Dissection.Of close.accepts escape c.ahead ⟨units, .unclosed lone⟩) :
    ∃ next, (Pattern.rule ⟨kind, .delimited close escape⟩).run c = (⟨kind, c.ahead⟩, next)
      ∧ (c.current = none → next = c)
      ∧ (c.current ≠ none → next = between c.content []) := by
  by_cases hcurrent : c.current = none
  · refine ⟨c, ?_, fun _ => rfl, fun hsome => absurd hcurrent hsome⟩
    rw [Pattern.run_rule_of_none _ hcurrent, Cursor.ahead_eq_nil hcurrent]
  · obtain ⟨before, byte, behind, rfl⟩ := Cursor.exists_between_of_current hcurrent
    have hunits := Units.of_flatten h.units
    have hsplit : (Shape.delimited close escape).split ((byte :: behind) ++ [])
        = { body := byte :: behind } := by
      have hahead : units.flatten ++ lone.toList = byte :: behind := by
        rw [← Cursor.ahead_between before (byte :: behind)]
        exact h.bytes_eq
      rw [List.append_nil, ← hahead]
      cases lone with
      | none =>
        rw [Option.toList_none, List.append_nil]
        exact Split.delimited_unclosed hunits
      | some e => exact Split.delimited_cut hunits (h.escapes e rfl).2
    refine ⟨between (before ++ byte :: behind) [], ?_, fun hnone => absurd hnone hcurrent,
      fun _ => by rw [Cursor.content_between]⟩
    rw [Cursor.ahead_between]
    have hrun := (Pattern.mk kind (.delimited close escape)).run_rule_bare hsplit before
    rwa [List.append_nil] at hrun

/-- A run of bytes that do not close, and one advance if a byte is left. -/
def runAndAdvance (kind : Kind) (close : Points) : Rule := do
  let value ← Scan.takeWhile fun b => !close.accepts b
  if (← Scan.look Cursor.current).isSome then Scan.advance
  return { kind, value }

theorem run_runAndAdvance {kind : Kind} {close : Points} {c next : Cursor} {body : List Byte}
    (hrun : c.takeWhile (fun b => !close.accepts b) = (body, next)) :
    (runAndAdvance kind close).run c
      = (⟨kind, body⟩, if next.current.isSome then next.advance else next) := by
  rw [runAndAdvance, Scan.run_bind, Scan.run_takeWhile, hrun]
  cases next <;> rfl

/-- Without an escape byte the rule is just that. -/
theorem rule_delimited_none (kind : Kind) (close : Points) :
    Pattern.rule ⟨kind, .delimited close none⟩ = runAndAdvance kind close := by
  refine Scan.ext fun c => ?_
  by_cases hcurrent : c.current = none
  · have hrun : c.takeWhile (fun b => !close.accepts b) = ([], c) := by
      rw [Cursor.takeWhile, Cursor.ahead_eq_nil hcurrent]
      rfl
    rw [Pattern.run_rule_of_none _ hcurrent, run_runAndAdvance hrun, hcurrent]
    rfl
  · obtain ⟨before, byte, behind, rfl⟩ := Cursor.exists_between_of_current hcurrent
    obtain ⟨body, left, hahead, hbody, hstop⟩ :=
      exists_accepted_run (fun b => !close.accepts b) (byte :: behind)
    have hunits : Units close.accepts none body :=
      .of_open fun b hb => by simpa using hbody b hb
    have hrun : (between before (byte :: behind)).takeWhile (fun b => !close.accepts b)
        = (body, between (before ++ body) left) := by
      rw [Cursor.takeWhile, hahead, Cursor.ahead_between, takeWhile_append_of_stop hbody hstop,
        Cursor.advanceBy_between]
    rw [run_runAndAdvance hrun, hahead, Cursor.current_between]
    cases left with
    | nil =>
      have hsplit : (Shape.delimited close none).split (body ++ []) = { body } := by
        rw [List.append_nil]
        exact Split.delimited_unclosed hunits
      exact (Pattern.mk kind (.delimited close none)).run_rule_bare hsplit before
    | cons q rest =>
      have hclose : close.accepts q = true := by simpa using hstop q rfl
      have hsplit : (Shape.delimited close none).split (body ++ q :: rest)
          = { body, closer := some q } := Split.delimited_closed hunits hclose rest
      rw [(Pattern.mk kind (.delimited close none)).run_rule_closed hsplit before,
        Cursor.advance_between_cons, List.append_assoc]
      rfl

/-- An escape byte that closes has no effect. -/
theorem rule_delimited_of_closes {e : Byte} (hclose : close.accepts e = true) :
    Pattern.rule ⟨kind, .delimited close (some e)⟩
      = Pattern.rule ⟨kind, .delimited close none⟩ := by
  have hsplit : (Shape.delimited close (some e)).split = (Shape.delimited close none).split :=
    funext (Split.delimited_of_closes hclose)
  rw [Pattern.rule, Pattern.rule, hsplit]

/-! ## The grammar of a delimited rule -/

/-- What is so of a delimited rule at every cursor. -/
structure FollowsDissection (kind : Kind) (close : Points) (escape : Option Byte) : Prop where
  /-- What is ahead is the current byte and those behind it, or nothing. -/
  ahead_eq : ∀ c : Cursor,
    c.ahead = match c.current with
      | some byte => byte :: c.remaining
      | none => []
  /-- There is one way to take it apart. -/
  existsUnique : ∀ c : Cursor, ∃! d : Dissection, d.Of close.accepts escape c.ahead
  /-- Units and a closing byte: the units are the token, and the cursor comes to stand on the
      first byte behind the closing one, or at the end. -/
  closed : ∀ (c : Cursor) (units : List (List Byte)) (q : Byte) (rest : List Byte),
    Dissection.Of close.accepts escape c.ahead ⟨units, .closed q rest⟩ →
    ∃ next : Cursor, (Pattern.rule ⟨kind, .delimited close escape⟩).run c
        = (⟨kind, units.flatten⟩, next)
      ∧ next.content = c.content ∧ next.offset = c.offset + (units.flatten.length + 1)
      ∧ next.current = rest.head? ∧ next.remaining = rest.tail
  /-- Units that nothing closes, and perhaps an escape byte that is left alone: all of it is the
      token, and the cursor comes to the end, or stays where it is if it had no current byte. -/
  unclosed : ∀ (c : Cursor) (units : List (List Byte)) (lone : Option Byte),
    Dissection.Of close.accepts escape c.ahead ⟨units, .unclosed lone⟩ →
    ∃ next : Cursor, (Pattern.rule ⟨kind, .delimited close escape⟩).run c
        = (⟨kind, c.ahead⟩, next)
      ∧ next.content = c.content ∧ next.current = none
      ∧ (c.current = none → next = c)
      ∧ (c.current ≠ none → next.offset = c.content.length ∧ next.remaining = [])
  /-- An escape byte that closes has no effect. -/
  escape_closes : ∀ e, escape = some e → close.accepts e = true →
    Pattern.rule ⟨kind, .delimited close escape⟩ = Pattern.rule ⟨kind, .delimited close none⟩
  /-- Without an escape byte the rule is a run of bytes that do not close and an advance over the
      byte behind it. -/
  run_and_advance : Pattern.rule ⟨kind, .delimited close none⟩ = runAndAdvance kind close

/-- **Delimited rules follow the dissection.**  A delimited rule accepts exactly the bytes that its
    grammar says, at whatever cursor it is run. -/
theorem delimited_follows_dissection (kind : Kind) (close : Points) (escape : Option Byte) :
    FollowsDissection kind close escape where
  ahead_eq c := by cases c <;> rfl
  existsUnique c := existsUnique_dissection close.accepts escape c.ahead
  closed c units q rest h := by
    obtain ⟨before, rfl, hrun⟩ := run_rule_of_closed kind h
    refine ⟨_, hrun, ?_, ?_, ?_, ?_⟩
    · simp
    · simp
    · simp
    · cases rest <;> rfl
  unclosed c units lone h := by
    obtain ⟨next, hrun, hstays, hend⟩ := run_rule_of_unclosed kind h
    refine ⟨next, hrun, ?_, ?_, hstays, fun hcurrent => ?_⟩
    · have hforward := (Pattern.rule ⟨kind, .delimited close escape⟩).forward c
      rw [hrun] at hforward
      exact hforward.content_eq
    · by_cases hcurrent : c.current = none
      · rw [hstays hcurrent, hcurrent]
      · rw [hend hcurrent, Cursor.current_between]
        rfl
    · rw [hend hcurrent, Cursor.offset_between]
      exact ⟨rfl, rfl⟩
  escape_closes := by
    rintro e rfl hclose
    exact rule_delimited_of_closes kind hclose
  run_and_advance := rule_delimited_none kind close

/-- The quote closes and the backslash escapes. -/
def quotedBody : Pattern := ⟨.string, .delimited (.listed [0x22]) (some 0x5c)⟩

-- a, an escaped quote, b and a quote that closes; then a backslash that has nothing to keep; and a
-- quote that is also the escape byte
theorem delimited_follows_dissection_quotedBody :
    (∃ next : Cursor,
        quotedBody.rule.run (between [0x22] [0x61, 0x5c, 0x22, 0x62, 0x22, 0x63])
          = (⟨.string, [0x61, 0x5c, 0x22, 0x62]⟩, next)
        ∧ next.offset = 6 ∧ next.current = some 0x63)
      ∧ (∃ next : Cursor,
        quotedBody.rule.run (between [0x22] [0x61, 0x5c]) = (⟨.string, [0x61, 0x5c]⟩, next)
        ∧ next.offset = 3 ∧ next.current = none)
      ∧ Pattern.rule ⟨.string, .delimited (.listed [0x22]) (some 0x22)⟩
        = runAndAdvance .string (.listed [0x22]) := by
  have hplain : BodyUnit (Points.listed [0x22]).accepts (some 0x5c) [0x61] :=
    .plain (by decide) (by decide)
  have hplain' : BodyUnit (Points.listed [0x22]).accepts (some 0x5c) [0x62] :=
    .plain (by decide) (by decide)
  have hpair : BodyUnit (Points.listed [0x22]).accepts (some 0x5c) [0x5c, 0x22] :=
    .pair (by decide) rfl
  have hfollows := delimited_follows_dissection .string (.listed [0x22]) (some 0x5c)
  have hclosed := hfollows.closed (between [0x22] [0x61, 0x5c, 0x22, 0x62, 0x22, 0x63])
    [[0x61], [0x5c, 0x22], [0x62]] 0x22 [0x63]
    ⟨rfl, by simp [hplain, hplain', hpair], by rintro _ _ ⟨rfl⟩; decide, fun e he => (nomatch he)⟩
  have hcut := hfollows.unclosed (between [0x22] [0x61, 0x5c]) [[0x61]] (some 0x5c)
    ⟨rfl, by simp [hplain], fun q rest hq => (nomatch hq), by rintro _ ⟨rfl⟩; decide⟩
  refine ⟨?_, ?_, ?_⟩
  · obtain ⟨next, hrun, -, hoffset, hcurrent, -⟩ := hclosed
    exact ⟨next, hrun, hoffset, hcurrent⟩
  · obtain ⟨next, hrun, -, hcurrent, -, hend⟩ := hcut
    exact ⟨next, hrun, (hend (by decide)).1, hcurrent⟩
  · have hsame := delimited_follows_dissection .string (.listed [0x22]) (some 0x22)
    exact (hsame.escape_closes 0x22 rfl (by decide)).trans hsame.run_and_advance

end ByteTokenizer
