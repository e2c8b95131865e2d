/-
  DELIMITED BODIES: the grammar of what stands in front of a closing byte.

  A body is put together from units.  A unit is one byte that neither closes nor escapes, or an
  escape byte together with the byte behind it, whatever that is (`Units`).  An escape byte that
  also closes only closes, so it is in no unit.

  Whatever is ahead, it begins with as many units as there are, and then one of three things is
  the case (`delimited_grammar`): a closing byte comes next; or nothing comes next; or a last
  escape byte comes next, which has nothing to keep.  In each case it is known how the bytes are
  divided (`Split.delimited_closed`, `Split.delimited_unclosed`, `Split.delimited_cut`).
-/
import ByteTokenizer.Rule.Shape

namespace ByteTokenizer

/-- Bytes that are put together from units. -/
inductive Units (close : Byte → Bool) (escape : Option Byte) : List Byte → Prop where
  | nil : Units close escape []
  /-- A byte that neither closes nor escapes. -/
  | plain {b : Byte} {body : List Byte} (hopen : close b = false) (hplain : escape ≠ some b)
      (hbody : Units close escape body) : Units close escape (b :: body)
  /-- An escape byte and the byte that it keeps. -/
  | pair {e b : Byte} {body : List Byte} (hopen : close e = false) (hescape : escape = some e)
      (hbody : Units close escape body) : Units close escape (e :: b :: body)

/-- What can be ahead of a delimited shape. -/
inductive Delimited (close : Byte → Bool) (escape : Option Byte) : List Byte → Prop where
  /-- A body and a closing byte. -/
  | closed {body : List Byte} {q : Byte} (rest : List Byte) (hbody : Units close escape body)
      (hclose : close q = true) : Delimited close escape (body ++ q :: rest)
  /-- A body that nothing closes. -/
  | unclosed {body : List Byte} (hbody : Units close escape body) : Delimited close escape body
  /-- A body that nothing closes, and an escape byte that has nothing to keep. -/
  | cut {body : List Byte} {e : Byte} (hbody : Units close escape body) (hopen : close e = false)
      (hescape : escape = some e) : Delimited close escape (body ++ [e])

variable {close : Byte → Bool} {escape : Option Byte} {body ahead : List Byte} {b e : Byte}

/-! ## Every list of bytes is one of the three -/

theorem Delimited.plain (hopen : close b = false) (hplain : escape ≠ some b)
    (h : Delimited close escape ahead) : Delimited close escape (b :: ahead) := by
  cases h with
  | closed rest hbody hclose => exact .closed rest (.plain hopen hplain hbody) hclose
  | unclosed hbody => exact .unclosed (.plain hopen hplain hbody)
  | cut hbody hopen' hescape => exact .cut (.plain hopen hplain hbody) hopen' hescape

theorem Delimited.pair (hopen : close e = false) (hescape : escape = some e)
    (h : Delimited close escape ahead) : Delimited close escape (e :: b :: ahead) := by
  cases h with
  | closed rest hbody hclose => exact .closed rest (.pair hopen hescape hbody) hclose
  | unclosed hbody => exact .unclosed (.pair hopen hescape hbody)
  | cut hbody hopen' hescape' => exact .cut (.pair hopen hescape hbody) hopen' hescape'

/-- The bytes ahead are a body with a closing byte behind it, a body, or a body with a last
    escape byte behind it. -/
theorem delimited_grammar (close : Byte → Bool) (escape : Option Byte) :
    ∀ ahead : List Byte, Delimited close escape ahead
  | [] => .unclosed .nil
  | b :: rest => by
    cases hclose : close b with
    | true => exact .closed rest .nil hclose
    | false =>
      by_cases hescape : escape = some b
      · -- an escape byte: it keeps the next one, if there is a next one
        match rest with
        | [] => exact .cut .nil hclose hescape
        | _ :: rest => exact (delimited_grammar close escape rest).pair hclose hescape
      · exact (delimited_grammar close escape rest).plain hclose hescape

/-- An escape byte with nothing behind it is in no unit. -/
theorem Units.not_append_escape (h : Units close escape body) (hescape : escape = some e) :
    ¬ Units close escape (body ++ [e]) := by
  induction h with
  | nil =>
    intro hcut
    cases hcut with
    | plain hopen hplain hbody => exact hplain hescape
  | @plain b body hopen hplain hbody ih =>
    intro hcut
    generalize hahead : body ++ [e] = ahead at hcut ih
    rw [List.cons_append, hahead] at hcut
    cases hcut with
    | plain hopen' hplain' hbody' => exact ih hbody'
    | pair hopen' hescape' hbody' => exact hplain hescape'
  | pair hopen hescape' hbody ih =>
    intro hcut
    rw [List.cons_append, List.cons_append] at hcut
    cases hcut with
    | plain hopen' hplain' hbody' => exact hplain' hescape'
    | pair hopen'' hescape'' hbody' => exact ih hbody'

/-! ## How they are divided -/

namespace Split

/-- Units go to the body, and what follows them is divided as if it stood alone. -/
theorem delimited_append (h : Units close escape body) (ahead : List Byte) :
    delimited close escape false (body ++ ahead)
      = { delimited close escape false ahead with
          body := body ++ (delimited close escape false ahead).body } := by
  induction h with
  | nil => rfl
  | @plain b body hopen hplain hbody ih =>
    have hkept : (escape == some b) = false := beq_eq_false_iff_ne.2 hplain
    rw [List.cons_append, delimited, if_neg Bool.false_ne_true, hopen, if_neg Bool.false_ne_true,
      hkept, ih]
    rfl
  | @pair e b body hopen hescape hbody ih =>
    have hkept : (escape == some e) = true := beq_iff_eq.2 hescape
    rw [List.cons_append, List.cons_append, delimited, if_neg Bool.false_ne_true, hopen,
      if_neg Bool.false_ne_true, hkept, delimited, if_pos rfl, ih]
    rfl

/-- A closing byte behind the units closes the body. -/
theorem delimited_closed {q : Byte} (h : Units close escape body) (hclose : close q = true)
    (rest : List Byte) :
    delimited close escape false (body ++ q :: rest) = { body, closer := some q } := by
  rw [delimited_append h, delimited, if_neg Bool.false_ne_true, hclose, if_pos rfl,
    List.append_nil]

/-- Units with nothing behind them are all of the body. -/
theorem delimited_unclosed (h : Units close escape body) :
    delimited close escape false body = { body } := by
  have hsplit := delimited_append h []
  rw [List.append_nil, delimited, List.append_nil] at hsplit
  exact hsplit

/-- A last escape byte goes to the body as well. -/
theorem delimited_cut (h : Units close escape body) (hopen : close e = false) :
    delimited close escape false (body ++ [e]) = { body := body ++ [e] } := by
  rw [delimited_append h, delimited, if_neg Bool.false_ne_true, hopen, if_neg Bool.false_ne_true,
    delimited]
  rfl

/-- An escape byte that closes keeps nothing. -/
theorem delimited_of_closes (hclose : close e = true) (ahead : List Byte) :
    delimited close (some e) false ahead = delimited close none false ahead := by
  induction ahead with
  | nil => rfl
  | cons b rest ih =>
    rw [delimited, delimited, if_neg Bool.false_ne_true, if_neg Bool.false_ne_true]
    by_cases hb : close b = true
    · rw [if_pos hb, if_pos hb]
    · have hne : (some e == some b) = false :=
        beq_eq_false_iff_ne.2 fun heq => hb (Option.some.inj heq ▸ hclose)
      rw [if_neg hb, if_neg hb, hne, ih]
      rfl

end Split

end ByteTokenizer
