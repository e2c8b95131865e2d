/-
  SEGMENTS: where each byte of a content goes.

  If tokenizing with patterns succeeds, every byte of the content has gone to one of four places:
  it was ignored, it was an opening marker, it is in the body of a token, or it closed such a
  body.  In other words the content is cut into segments, and nothing is lost, repeated or moved.

  `Laid segments dispatches` says which sequences of segments can come about, and what the
  dispatches of the run are to them.  It grows at the end, by an ignored byte or by a dispatch: a
  marker exactly if the category has one, and then one body for each pattern of the category, in
  their order (`Bodies`).  A closing byte stands only behind the body of a delimited pattern that
  is closed by that byte.  Each dispatch also notes its first byte and how many bytes there were
  before it.

  The crux is the loop invariant `exists_laid_of_head`: at every head the segments so far are laid
  out that way, and joined they are the bytes before the cursor.
-/
import ByteTokenizer.Proofs.Rule.Parts
import ByteTokenizer.Proofs.Tokenizer.Head

namespace ByteTokenizer

open Cursor (between)

/-- A stretch of the content. -/
inductive Segment where
  /-- A byte between tokens. -/
  | ignored (byte : Byte)
  /-- A byte that opens a token and is not part of it. -/
  | marker (byte : Byte)
  /-- The bytes of a token, which may be none. -/
  | body (bytes : List Byte)
  /-- A byte that closes a token and is not part of it. -/
  | closer (byte : Byte)
deriving DecidableEq

namespace Segment

/-- The bytes of a segment. -/
def bytes : Segment → List Byte
  | ignored byte => [byte]
  | marker byte => [byte]
  | body bytes => bytes
  | closer byte => [byte]

/-- The bytes of a segment that is the body of a token. -/
def body? : Segment → Option (List Byte)
  | body bytes => some bytes
  | ignored _ | marker _ | closer _ => none

/-- The segments joined. -/
def text (segments : List Segment) : List Byte := segments.flatMap bytes

/-- The bodies among the segments. -/
def bodies (segments : List Segment) : List (List Byte) := segments.filterMap body?

/-- The marker of a dispatch that the byte opens, if the category has one. -/
def markerOf (category : Category) (byte : Byte) : List Segment :=
  if category.hasMarker then [marker byte] else []

theorem text_append (segments segments' : List Segment) :
    text (segments ++ segments') = text segments ++ text segments' :=
  List.flatMap_append

theorem bodies_append (segments segments' : List Segment) :
    bodies (segments ++ segments') = bodies segments ++ bodies segments' :=
  List.filterMap_append

theorem text_markerOf (category : Category) (byte : Byte) (rest : List Byte) :
    text (markerOf category byte) = category.marker (byte :: rest) := by
  unfold markerOf Category.marker
  split <;> rfl

theorem bodies_markerOf (category : Category) (byte : Byte) :
    bodies (markerOf category byte) = [] := by
  unfold markerOf
  split <;> rfl

end Segment

open Segment (text bodies markerOf)

/-! ## The layout of a run -/

/-- The segments are one body for each pattern, in their order, and the tokens are those of the
    bodies.  Behind a body there may be a byte that closes it. -/
inductive Bodies : List Pattern → List Segment → List Token → Prop where
  | nil : Bodies [] [] []
  /-- A body and nothing else. -/
  | bare {p : Pattern} {ps : List Pattern} {segments : List Segment} {tokens : List Token}
      (bytes : List Byte) (hrest : Bodies ps segments tokens) :
      Bodies (p :: ps) (.body bytes :: segments) (⟨p.kind, bytes⟩ :: tokens)
  /-- The body of a delimited pattern and one of its closing bytes. -/
  | closed {p : Pattern} {ps : List Pattern} {segments : List Segment} {tokens : List Token}
      {close : Points} {escape : Option Byte} {byte : Byte} (bytes : List Byte)
      (hshape : p.shape = .delimited close escape) (hclose : close.accepts byte = true)
      (hrest : Bodies ps segments tokens) :
      Bodies (p :: ps) (.body bytes :: .closer byte :: segments) (⟨p.kind, bytes⟩ :: tokens)

/-- How the segments of a run follow each other, with the dispatches that they come from. -/
inductive Laid (alphabet : Alphabet) (patterns : Category → List Pattern) :
    List Segment → List Dispatch → Prop where
  | start : Laid alphabet patterns [] []
  /-- An ignored byte. -/
  | ignored {segments : List Segment} {dispatches : List Dispatch} {byte : Byte}
      (hbefore : Laid alphabet patterns segments dispatches)
      (hclass : alphabet.classify byte = some .ignored) :
      Laid alphabet patterns (segments ++ [.ignored byte]) dispatches
  /-- A dispatch: the marker, if the category has one, and a body for each pattern.  The first of
      all these bytes is the one that opens the category. -/
  | dispatched {segments served : List Segment} {dispatches : List Dispatch} {byte : Byte}
      {category : Category} {tokens : List Token}
      (hbefore : Laid alphabet patterns segments dispatches)
      (hclass : alphabet.classify byte = some (.opens category))
      (hserved : Bodies (patterns category) served tokens)
      (hfirst : (text (markerOf category byte ++ served)).head? = some byte) :
      Laid alphabet patterns (segments ++ (markerOf category byte ++ served))
        (dispatches ++ [{ byte, offset := (text segments).length, category,
                          rules := (patterns category).length, tokens }])

/-- The bodies of patterns are the values of their tokens. -/
theorem Bodies.bodies_eq {ps : List Pattern} {segments : List Segment} {tokens : List Token}
    (h : Bodies ps segments tokens) : bodies segments = tokens.map Token.value := by
  induction h with
  | nil => rfl
  | bare bytes hrest ih => exact congrArg (bytes :: ·) ih
  | closed bytes hshape hclose hrest ih => exact congrArg (bytes :: ·) ih

/-- The bodies of a layout are the values of all tokens of its dispatches. -/
theorem Laid.bodies_eq {alphabet : Alphabet} {patterns : Category → List Pattern}
    {segments : List Segment} {dispatches : List Dispatch}
    (h : Laid alphabet patterns segments dispatches) :
    bodies segments = (dispatches.flatMap (·.tokens)).map Token.value := by
  induction h with
  | start => rfl
  | ignored hbefore hclass ih =>
    rw [Segment.bodies_append, ih]
    exact List.append_nil _
  | dispatched hbefore hclass hserved hfirst ih =>
    rw [Segment.bodies_append, Segment.bodies_append, ih, Segment.bodies_markerOf,
      hserved.bodies_eq, List.flatMap_append, List.map_append]
    simp

/-! ## The segments of a dispatch -/

/-- The body that the pattern has taken, and the byte that closed it. -/
def Part.segments (part : Part) : List Segment :=
  .body part.split.body :: part.split.closer.toList.map .closer

theorem Part.text_segments (part : Part) : text part.segments = part.split.used := by
  unfold Part.segments Split.used
  cases part.split.closer with
  | none => simp [text, Segment.bytes]
  | some b => simp [text, Segment.bytes]

theorem text_flatMap_segments (parts : List Part) :
    text (parts.flatMap Part.segments) = usedBy parts := by
  induction parts with
  | nil => rfl
  | cons part parts ih =>
    rw [List.flatMap_cons, Segment.text_append, Part.text_segments, ih]
    rfl

/-- The parts that patterns take are bodies of these patterns. -/
theorem bodies_of_parts (ps : List Pattern) (ahead : List Byte) :
    Bodies ps ((Pattern.parts ps ahead).flatMap Part.segments)
      ((Pattern.parts ps ahead).map Part.token) := by
  induction ps generalizing ahead with
  | nil => exact .nil
  | cons p ps ih =>
    have hrest := ih (ahead.drop (p.shape.split ahead).used.length)
    rw [Pattern.parts, List.flatMap_cons, List.map_cons]
    cases hcloser : (p.shape.split ahead).closer with
    | none =>
      have hseg : Part.segments ⟨p, p.shape.split ahead⟩ = [.body (p.shape.split ahead).body] := by
        simp [Part.segments, hcloser]
      rw [hseg]
      exact .bare _ hrest
    | some b =>
      have hseg : Part.segments ⟨p, p.shape.split ahead⟩
          = [.body (p.shape.split ahead).body, .closer b] := by
        simp [Part.segments, hcloser]
      obtain ⟨close, escape, hshape, hclose⟩ := Shape.accepts_of_closer hcloser
      rw [hseg]
      exact .closed _ hshape hclose hrest

section Run

variable {alphabet : Alphabet} {patterns : Category → List Pattern} {content : List Byte}

/-- The bytes that a dispatch takes are those of its segments: the marker, and the bodies. -/
theorem exists_bodies_of_dispatch {category : Category} {before rest more left : List Byte}
    {byte : Byte} {tokens : List Token}
    (hrun : ((Tokenizer.ofPatterns alphabet patterns).dispatch category).run
        (between before (byte :: rest))
      = (tokens, between (before ++ byte :: more) left)) :
    ∃ served, Bodies (patterns category) served tokens
      ∧ text (markerOf category byte ++ served) = byte :: more := by
  obtain ⟨htokens, htaken, -⟩ := Tokenizer.run_dispatch_ofPatterns_iff.1 hrun
  refine ⟨(Pattern.dispatched category (patterns category) (byte :: rest)).flatMap Part.segments,
    ?_, ?_⟩
  · rw [htokens]
    exact bodies_of_parts (patterns category) (category.afterMarker (byte :: rest))
  · rw [Segment.text_append, Segment.text_markerOf category byte rest, text_flatMap_segments]
    exact htaken.symm

/-- A turn that leads onward adds segments to a layout: those of the bytes that it takes. -/
theorem Laid.exists_of_turnsTo {segments : List Segment} {dispatches : List Dispatch}
    (hlaid : Laid alphabet patterns segments dispatches) {ahead : List Byte}
    {dispatch : Option Dispatch} {next : Cursor}
    (hturns : (Tokenizer.ofPatterns alphabet patterns).TurnsTo (text segments) ahead
      (.onward dispatch next)) :
    ∃ added left, ahead = text added ++ left
      ∧ Laid alphabet patterns (segments ++ added) (dispatches ++ dispatch.toList)
      ∧ next = between (text (segments ++ added)) left := by
  cases hturns with
  | @ignored byte rest hclass =>
    refine ⟨[.ignored byte], rest, rfl, ?_, ?_⟩
    · rw [Option.toList_none, List.append_nil]
      exact .ignored hlaid hclass
    · rw [Segment.text_append]
      rfl
  | @dispatched byte rest more left category tokens hclass hrest hrun =>
    obtain ⟨served, hserved, htext⟩ := exists_bodies_of_dispatch hrun
    refine ⟨markerOf category byte ++ served, left, ?_, ?_, ?_⟩
    · rw [htext, hrest]
      rfl
    · have hfirst : (text (markerOf category byte ++ served)).head? = some byte := by
        rw [htext]
        rfl
      have hadded := Laid.dispatched hlaid hclass hserved hfirst
      simpa [Tokenizer.dispatchAt, Tokenizer.ruleCount, Tokenizer.ofPatterns] using hadded
    · rw [Segment.text_append, htext]

/-- The loop invariant: at every head the segments so far are laid out, and joined they are the
    bytes before the cursor. -/
theorem exists_laid_of_head {n : Nat} {h : Head}
    (hhead : (Tokenizer.ofPatterns alphabet patterns).steady.head content n = some h) :
    ∃ segments ahead, content = text segments ++ ahead
      ∧ Laid alphabet patterns segments h.dispatches
      ∧ h.cursor = between (text segments) ahead := by
  refine Varying.head_induction
    (motive := fun _ h => ∃ segments ahead, content = text segments ++ ahead
      ∧ Laid alphabet patterns segments h.dispatches
      ∧ h.cursor = between (text segments) ahead)
    ⟨[], content, rfl, .start, rfl⟩ ?_ hhead
  rintro n h dispatch next ⟨segments, ahead, hcontent, hlaid, hcursor⟩ hturn
  have hturns := Tokenizer.turnsTo_of_turn_eq hcursor hturn
  obtain ⟨added, left, rfl, hlaid', hnext⟩ := hlaid.exists_of_turnsTo hturns
  refine ⟨segments ++ added, left, ?_, hlaid', hnext⟩
  rw [hcontent, Segment.text_append, List.append_assoc]

/-- **Nothing is lost, repeated or moved.**  If tokenizing with patterns succeeds, the content is
    its segments joined, the values of the tokens are the bodies among them, and the segments are
    laid out as the dispatches of the run say. -/
theorem content_is_segments {tokens : List Token}
    (hok : (Tokenizer.ofPatterns alphabet patterns).tokenize content = .ok tokens) :
    ∃ segments, text segments = content
      ∧ bodies segments = tokens.map Token.value
      ∧ Laid alphabet patterns segments
        ((Tokenizer.ofPatterns alphabet patterns).run content).dispatches
      ∧ ((Tokenizer.ofPatterns alphabet patterns).run content).dispatches.flatMap (·.tokens)
        = tokens := by
  rw [Tokenizer.tokenize, ← Varying.run_steady] at hok
  obtain ⟨n, h, hhead, hturn, hrun, htokens⟩ := Varying.exists_head_of_result_ok hok
  obtain ⟨segments, ahead, hcontent, hlaid, hcursor⟩ := exists_laid_of_head hhead
  -- the last turn is finished, so nothing is ahead of the last head
  cases Tokenizer.turnsTo_of_turn_eq hcursor hturn
  rw [Varying.run_steady] at hrun
  rw [hrun]
  refine ⟨segments, ?_, ?_, hlaid, htokens⟩
  · rw [hcontent, List.append_nil]
  · rw [hlaid.bodies_eq, ← htokens]
    rfl

end Run

/-- Strings in quotes with the byte behind them, and blanks between. -/
def quotedAndNext : Tokenizer := .ofPatterns
  { quotes := .listed [0x22], ignored := .listed [0x20] }
  fun
    | .string => [⟨.string, .delimited (.listed [0x22]) none⟩, ⟨.delimiter, .single⟩]
    | .number | .identifier | .comment | .delimiter => []

-- blank, quote, a, quote, semicolon, quote, b: the second string runs to the end of the input,
-- and what is behind it has an empty body
theorem content_is_segments_quotedAndNext :
    quotedAndNext.tokenize [0x20, 0x22, 0x61, 0x22, 0x3b, 0x22, 0x62]
        = .ok [⟨.string, [0x61]⟩, ⟨.delimiter, [0x3b]⟩, ⟨.string, [0x62]⟩, ⟨.delimiter, []⟩]
      ∧ ∃ segments, text segments = [0x20, 0x22, 0x61, 0x22, 0x3b, 0x22, 0x62]
        ∧ bodies segments = [[0x61], [0x3b], [0x62], []] := by
  have hok : quotedAndNext.tokenize [0x20, 0x22, 0x61, 0x22, 0x3b, 0x22, 0x62]
      = .ok [⟨.string, [0x61]⟩, ⟨.delimiter, [0x3b]⟩, ⟨.string, [0x62]⟩, ⟨.delimiter, []⟩] := by
    cbv
  obtain ⟨segments, htext, hbodies, -, -⟩ := content_is_segments hok
  exact ⟨hok, segments, htext, hbodies⟩

end ByteTokenizer
