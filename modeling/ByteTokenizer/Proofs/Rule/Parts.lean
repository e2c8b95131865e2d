/-
  PARTS: how the patterns of a category share out the bytes ahead.

  A dispatch of patterns is a division of bytes and needs no cursor.  If the category has an
  opening marker, that is set aside first (`Category.marker`).  Of the rest each pattern in turn
  takes its part and leaves what follows to the next: `Pattern.parts` gives one part to each
  pattern, in their order, and `usedBy` is what the parts use up together.  `Pattern.dispatched`
  and `Pattern.taken` are the parts of a whole dispatch and its bytes with the marker.

  `run_dispatch_ofPatterns` says that the rules do just that to a cursor; where a run is given and
  its parts are looked for, `run_dispatch_ofPatterns_iff` reads it in both directions.  So the
  tokens depend on the bytes ahead alone, not on those before, and by `dispatched_append_congr` on
  no byte further than the one directly behind what is taken.
-/
import ByteTokenizer.Proofs.Rule.Pattern
import ByteTokenizer.Proofs.Tokenizer.Turn

namespace ByteTokenizer

open Cursor (between)

/-! ## The marker -/

/-- The opening marker at the front of the bytes ahead, if the category has one. -/
def Category.marker (category : Category) (ahead : List Byte) : List Byte :=
  if category.hasMarker then ahead.take 1 else []

/-- The bytes that are left to the rules of the category. -/
def Category.afterMarker (category : Category) (ahead : List Byte) : List Byte :=
  if category.hasMarker then ahead.drop 1 else ahead

theorem Category.marker_append_afterMarker (category : Category) (ahead : List Byte) :
    category.marker ahead ++ category.afterMarker ahead = ahead := by
  unfold marker afterMarker
  split
  · exact List.take_append_drop 1 ahead
  · rfl

/-- A dispatch is the rules of the category, applied behind the marker. -/
theorem Tokenizer.run_dispatch_between (t : Tokenizer) (category : Category)
    (before ahead : List Byte) :
    (t.dispatch category).run (between before ahead)
      = (applyAll (t.rules category)).run
        (between (before ++ category.marker ahead) (category.afterMarker ahead)) := by
  rw [run_dispatch]
  unfold Category.marker Category.afterMarker
  split
  · cases ahead with
    | nil =>
      rw [Cursor.advance_between_nil, List.take_nil, List.append_nil]
      rfl
    | cons byte rest => rw [Cursor.advance_between_cons]; rfl
  · rw [List.append_nil]

/-! ## Sharing out -/

/-- What one pattern has taken. -/
structure Part where
  pattern : Pattern
  split : Split

/-- The token that the pattern has made. -/
def Part.token (part : Part) : Token where
  kind := part.pattern.kind
  value := part.split.body

/-- The parts that the patterns take of the bytes ahead, one after the other. -/
def Pattern.parts : List Pattern → List Byte → List Part
  | [], _ => []
  | p :: ps, ahead =>
    ⟨p, p.shape.split ahead⟩ :: parts ps (ahead.drop (p.shape.split ahead).used.length)

/-- The bytes that the parts use up, in order. -/
def usedBy (parts : List Part) : List Byte := parts.flatMap (·.split.used)

/-- What the first pattern uses up comes first, and the others share out what is behind. -/
theorem usedBy_parts_cons (p : Pattern) (ps : List Pattern) (ahead : List Byte) :
    usedBy (Pattern.parts (p :: ps) ahead) = (p.shape.split ahead).used
      ++ usedBy (Pattern.parts ps (ahead.drop (p.shape.split ahead).used.length)) := rfl

/-- The rules of patterns take their parts: they give the parts' tokens and leave the cursor
    behind the bytes that the parts use up. -/
theorem Pattern.run_applyAll (ps : List Pattern) (before ahead : List Byte) :
    ∃ rest, ahead = usedBy (parts ps ahead) ++ rest
      ∧ (Tokenizer.applyAll (ps.map rule)).run (between before ahead)
        = ((parts ps ahead).map Part.token,
          between (before ++ usedBy (parts ps ahead)) rest) := by
  induction ps generalizing before ahead with
  | nil => exact ⟨ahead, rfl, by rw [parts, usedBy, List.flatMap_nil, List.append_nil]; rfl⟩
  | cons p ps ih =>
    obtain ⟨behind, hahead, hfirst⟩ := p.run_rule before ahead
    obtain ⟨rest, hbehind, hrest⟩ := ih (before ++ (p.shape.split ahead).used) behind
    have hdrop : ahead.drop (p.shape.split ahead).used.length = behind :=
      (congrArg (List.drop _) hahead).trans List.drop_left
    refine ⟨rest, ?_, ?_⟩
    · rw [usedBy_parts_cons, hdrop, List.append_assoc, ← hbehind, ← hahead]
    · show ((p.rule.run (between before ahead)).1
          :: ((Tokenizer.applyAll (ps.map rule)).run (p.rule.run (between before ahead)).2).1,
        ((Tokenizer.applyAll (ps.map rule)).run (p.rule.run (between before ahead)).2).2) = _
      rw [hfirst, hrest, usedBy_parts_cons, parts, hdrop, List.map_cons, List.append_assoc]
      rfl

/-- The parts that the patterns of a category take in a dispatch, behind the marker. -/
def Pattern.dispatched (category : Category) (ps : List Pattern) (ahead : List Byte) :
    List Part :=
  parts ps (category.afterMarker ahead)

/-- The bytes that a dispatch takes: the marker, and what the patterns use up. -/
def Pattern.taken (category : Category) (ps : List Pattern) (ahead : List Byte) : List Byte :=
  category.marker ahead ++ usedBy (dispatched category ps ahead)

/-- A dispatch of patterns takes the marker and the parts, and gives the parts' tokens. -/
theorem Tokenizer.run_dispatch_ofPatterns (alphabet : Alphabet)
    (patterns : Category → List Pattern) (category : Category) (before ahead : List Byte) :
    ∃ rest, ahead = Pattern.taken category (patterns category) ahead ++ rest
      ∧ ((ofPatterns alphabet patterns).dispatch category).run (between before ahead)
        = ((Pattern.dispatched category (patterns category) ahead).map Part.token,
          between (before ++ Pattern.taken category (patterns category) ahead) rest) := by
  obtain ⟨rest, hafter, hrun⟩ := Pattern.run_applyAll (patterns category)
    (before ++ category.marker ahead) (category.afterMarker ahead)
  refine ⟨rest, ?_, ?_⟩
  · calc ahead
      _ = category.marker ahead ++ category.afterMarker ahead :=
        (category.marker_append_afterMarker ahead).symm
      _ = category.marker ahead
          ++ (usedBy (Pattern.dispatched category (patterns category) ahead) ++ rest) :=
        congrArg (category.marker ahead ++ ·) hafter
      _ = Pattern.taken category (patterns category) ahead ++ rest :=
        (List.append_assoc ..).symm
  · rw [run_dispatch_between, Pattern.taken, ← List.append_assoc]
    exact hrun

/-- What a dispatch of patterns does, by the bytes that it takes: they are the marker and the
    parts, and the tokens are those of the parts.  The bytes before make no difference. -/
theorem Tokenizer.run_dispatch_ofPatterns_iff {alphabet : Alphabet}
    {patterns : Category → List Pattern} {category : Category} {before ahead used left : List Byte}
    {tokens : List Token} :
    ((ofPatterns alphabet patterns).dispatch category).run (between before ahead)
        = (tokens, between (before ++ used) left)
      ↔ tokens = (Pattern.dispatched category (patterns category) ahead).map Part.token
        ∧ used = Pattern.taken category (patterns category) ahead
        ∧ ahead = used ++ left := by
  obtain ⟨rest, hahead, hrun⟩ := run_dispatch_ofPatterns alphabet patterns category before ahead
  rw [hrun, Prod.mk.injEq, Cursor.between_inj, List.append_cancel_left_eq]
  constructor
  · rintro ⟨rfl, rfl, rfl⟩
    exact ⟨rfl, rfl, hahead⟩
  · rintro ⟨rfl, rfl, hleft⟩
    exact ⟨rfl, rfl, List.append_cancel_left (hahead.symm.trans hleft)⟩

/-! ## What lies behind does not matter -/

/-- Patterns that use up no more than `u` share out alike whatever follows `u`, so long as the
    first byte that follows is the same or there is none. -/
theorem Pattern.parts_append_congr {ps : List Pattern} {u v v' : List Byte}
    (hhead : ∀ b ∈ v'.head?, b ∈ v.head?)
    (hle : (usedBy (parts ps (u ++ v))).length ≤ u.length) :
    parts ps (u ++ v') = parts ps (u ++ v) := by
  induction ps generalizing u with
  | nil => rfl
  | cons p ps ih =>
    rw [usedBy_parts_cons, List.length_append] at hle
    have hfirst : (p.shape.split (u ++ v)).used.length ≤ u.length := by omega
    have hsplit := Shape.split_append_congr hhead hfirst
    have hrest := ih (u := u.drop (p.shape.split (u ++ v)).used.length) (by
      rw [List.drop_append_of_le_length hfirst] at hle
      rw [List.length_drop]
      omega)
    rw [parts, parts, hsplit, List.drop_append_of_le_length hfirst,
      List.drop_append_of_le_length hfirst, hrest]

/-- The same for a dispatch, in which the marker is among the bytes that are taken. -/
theorem Pattern.dispatched_append_congr {category : Category} {ps : List Pattern}
    {u v v' : List Byte} (hhead : ∀ b ∈ v'.head?, b ∈ v.head?)
    (hle : (taken category ps (u ++ v)).length ≤ u.length) :
    dispatched category ps (u ++ v') = dispatched category ps (u ++ v)
      ∧ taken category ps (u ++ v') = taken category ps (u ++ v) := by
  unfold taken dispatched Category.marker Category.afterMarker at hle ⊢
  by_cases hmarker : category.hasMarker = true
  · simp only [if_pos hmarker] at hle ⊢
    cases u with
    | nil =>
      -- not even the marker fits, so nothing is there
      have hnil : v = [] := by
        cases v with
        | nil => rfl
        | cons b v => exact absurd hle (by simp)
      rw [hnil, eq_nil_of_head?_mem hhead hnil]
      exact ⟨rfl, rfl⟩
    | cons b u =>
      rw [List.length_append] at hle
      have hle' : 1 + (usedBy (parts ps (u ++ v))).length ≤ u.length + 1 := hle
      have hsame : parts ps (u ++ v') = parts ps (u ++ v) := parts_append_congr hhead (by omega)
      exact ⟨hsame, congrArg (fun parts => b :: usedBy parts) hsame⟩
  · simp only [if_neg hmarker, List.nil_append] at hle ⊢
    have hsame := parts_append_congr hhead hle
    exact ⟨hsame, congrArg usedBy hsame⟩

end ByteTokenizer
