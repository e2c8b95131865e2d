/-
  RENAMING: a tokenizer knows a byte only by the tests that accept it.

  Let `π` be a permutation of the bytes that leaves the line feed where it is, and think of `π b`
  as the new name of `b`.  Two tokenizers correspond under `π` if the tests of the second accept
  the new names of what those of the first accept: the seven tests of the alphabet, and in the
  patterns, one by one, the bytes of a run and the closing bytes, with the escape byte renamed.
  How a test is written makes no difference, and neither does it whether a run is given by a
  range or by points.

  Then tokenizing a content under its new names gives the same tokens under their new names, or
  the same failure at the same place (`tokenize_renamed`).  The line feed has to stay because
  lines are counted by it and the rest of a line ends with it.  No other byte is special, and in
  particular not the byte 0, which is also what `char` gives where there is no byte.

  The proof is a comparison of turns (`TurnsTo.renamed`, `Tokenizer.runFrom_map`), and below them
  of how a shape divides the bytes ahead (`Shape.Renamed.split_map`).
-/
import ByteTokenizer.Proofs.Rule.Parts
import ByteTokenizer.Proofs.Tokenizer.Simulation
import Mathlib.Data.List.Count
import Mathlib.Data.List.Forall2
import Mathlib.Logic.Equiv.Basic

namespace ByteTokenizer

open Cursor (between)

/-! ## New names -/

/-- The token with the new names of its bytes. -/
def Token.rename (π : Byte → Byte) (token : Token) : Token :=
  { token with value := token.value.map π }

/-- The failure with the new name of its byte, at the same place. -/
def Failure.rename (π : Byte → Byte) : Failure → Failure
  | .absentContent => .absentContent
  | .unexpectedByte byte location => .unexpectedByte (π byte) location
  | .stalled category location => .stalled category location

/-- The dispatch with the new names of its bytes. -/
def Dispatch.rename (π : Byte → Byte) (dispatch : Dispatch) : Dispatch :=
  { dispatch with byte := π dispatch.byte, tokens := dispatch.tokens.map (·.rename π) }

/-- The cursor at the same place of the content under its new names. -/
def Cursor.rename (π : Byte → Byte) : Cursor → Cursor
  | .fresh content => .fresh (content.map π)
  | .on before byte rest => .on (before.map π) (π byte) (rest.map π)
  | .past content => .past (content.map π)

/-- The split with the new names of its bytes. -/
def Split.rename (π : Byte → Byte) (s : Split) : Split where
  body := s.body.map π
  closer := s.closer.map π

@[simp] theorem Cursor.rename_between (π : Byte → Byte) (before ahead : List Byte) :
    (between before ahead).rename π = between (before.map π) (ahead.map π) := by
  cases ahead <;> simp [between, rename]

@[simp] theorem Split.used_rename (π : Byte → Byte) (s : Split) :
    (s.rename π).used = s.used.map π := by
  unfold rename used
  rw [List.map_append]
  cases s.closer <;> rfl

theorem Category.marker_map (category : Category) (π : Byte → Byte) (ahead : List Byte) :
    category.marker (ahead.map π) = (category.marker ahead).map π := by
  unfold marker
  split
  · exact List.map_take.symm
  · rfl

theorem Category.afterMarker_map (category : Category) (π : Byte → Byte) (ahead : List Byte) :
    category.afterMarker (ahead.map π) = (category.afterMarker ahead).map π := by
  unfold afterMarker
  split
  · exact List.map_drop.symm
  · rfl

/-! ## Corresponding tokenizers -/

/-- Each test of the second alphabet accepts the new names of what the first accepts. -/
structure Alphabet.Renamed (π : Byte → Byte) (a a' : Alphabet) : Prop where
  numbers : ∀ b, a'.numbers.accepts (π b) = a.numbers.accepts b
  letters : ∀ b, a'.letters.accepts (π b) = a.letters.accepts b
  quotes : ∀ b, a'.quotes.accepts (π b) = a.quotes.accepts b
  delimiters : ∀ b, a'.delimiters.accepts (π b) = a.delimiters.accepts b
  ignored : ∀ b, a'.ignored.accepts (π b) = a.ignored.accepts b
  comments : ∀ b, a'.comments.accepts (π b) = a.comments.accepts b
  extraLetters : ∀ b, a'.extraLetters.accepts (π b) = a.extraLetters.accepts b

/-- A new name has the meaning of the old one. -/
theorem Alphabet.Renamed.classify {π : Byte → Byte} {a a' : Alphabet} (h : a.Renamed π a')
    (b : Byte) : a'.classify (π b) = a.classify b := by
  unfold Alphabet.classify
  rw [h.ignored, h.numbers, h.quotes, h.letters, h.extraLetters, h.comments, h.delimiters]

/-- The shapes are alike, and the second accepts the new names of what the first accepts. -/
inductive Shape.Renamed (π : Byte → Byte) : Shape → Shape → Prop where
  /-- Two runs, each given by a range or by points. -/
  | run {shape shape' : Shape} {test test' : Byte → Bool} (hrun : shape.run? = some test)
      (hrun' : shape'.run? = some test') (htest : ∀ b, test' (π b) = test b) :
      Renamed π shape shape'
  | single : Renamed π .single .single
  | delimited {close close' : Points} (escape : Option Byte)
      (hclose : ∀ b, close'.accepts (π b) = close.accepts b) :
      Renamed π (.delimited close escape) (.delimited close' (escape.map π))
  | line : Renamed π .line .line

/-- The patterns make tokens of the same kind, of corresponding shapes. -/
structure Pattern.Renamed (π : Byte → Byte) (p p' : Pattern) : Prop where
  kind : p'.kind = p.kind
  shape : p.shape.Renamed π p'.shape

section Renaming

variable {π : Equiv.Perm Byte}

/-! ## Shapes -/

theorem Split.delimited_map {close close' : Byte → Bool} {escape : Option Byte}
    (hclose : ∀ b, close' (π b) = close b) (kept : Bool) (ahead : List Byte) :
    Split.delimited close' (escape.map π) kept (ahead.map π)
      = (Split.delimited close escape kept ahead).rename π := by
  induction ahead generalizing kept with
  | nil => rfl
  | cons b rest ih =>
    have hescape : (escape.map π == some (π b)) = (escape == some b) := by
      cases escape with
      | none => rfl
      | some e => simp
    rw [List.map_cons, Split.delimited, Split.delimited, hclose, hescape, ih, ih]
    split
    · rfl
    · split <;> rfl

variable (hlf : π Byte.lineFeed = Byte.lineFeed)
include hlf

/-- Only the line feed is called line feed. -/
theorem ne_lineFeed_iff (b : Byte) : π b ≠ Byte.lineFeed ↔ b ≠ Byte.lineFeed := by
  rw [← hlf, π.injective.ne_iff, hlf]

/-- Lines and columns do not depend on names. -/
theorem Location.after_map (before : List Byte) : after (before.map π) = after before := by
  have hcount : (before.map π).count Byte.lineFeed = before.count Byte.lineFeed := by
    have hcount := List.count_map_of_injective before π π.injective Byte.lineFeed
    rwa [hlf] at hcount
  have hline : ((before.map π).reverse.takeWhile (· ≠ Byte.lineFeed)).length
      = (before.reverse.takeWhile (· ≠ Byte.lineFeed)).length := by
    rw [← List.map_reverse, List.takeWhile_map, List.length_map]
    simp only [Function.comp_def, ne_lineFeed_iff hlf]
  rw [after, after, hcount, hline, List.length_map]

/-- Corresponding shapes divide alike. -/
theorem Shape.Renamed.split_map {shape shape' : Shape} (h : shape.Renamed π shape')
    (ahead : List Byte) : shape'.split (ahead.map π) = (shape.split ahead).rename π := by
  cases h with
  | @run _ _ test test' hrun hrun' htest =>
    have hsame : test' ∘ π = test := funext htest
    rw [split_of_run? hrun, split_of_run? hrun', List.takeWhile_map, hsame]
    rfl
  | single =>
    rw [split, split, ← List.map_take]
    rfl
  | delimited escape hclose => exact Split.delimited_map hclose false ahead
  | line =>
    rw [split, split, List.takeWhile_map]
    simp only [Function.comp_def, ne_lineFeed_iff hlf]
    rfl

/-! ## Dispatches -/

/-- Corresponding patterns share out alike. -/
theorem Pattern.parts_map {ps ps' : List Pattern} (h : List.Forall₂ (Renamed π) ps ps')
    (ahead : List Byte) :
    (parts ps' (ahead.map π)).map Part.token
        = ((parts ps ahead).map Part.token).map (·.rename π)
      ∧ usedBy (parts ps' (ahead.map π)) = (usedBy (parts ps ahead)).map π := by
  induction h generalizing ahead with
  | nil => exact ⟨rfl, rfl⟩
  | @cons p p' ps ps' hp hps ih =>
    have hsplit := hp.shape.split_map hlf ahead
    have hrest : (ahead.map π).drop (p'.shape.split (ahead.map π)).used.length
        = (ahead.drop (p.shape.split ahead).used.length).map π := by
      rw [hsplit, Split.used_rename, List.length_map, List.map_drop]
    obtain ⟨htokens, hused⟩ := ih (ahead.drop (p.shape.split ahead).used.length)
    constructor
    · have hfirst : Part.token ⟨p', p'.shape.split (ahead.map π)⟩
          = (Part.token ⟨p, p.shape.split ahead⟩).rename π := by
        rw [hsplit, Part.token, hp.kind]
        rfl
      rw [parts, parts, hrest, List.map_cons, List.map_cons, List.map_cons, htokens, hfirst]
    · rw [usedBy_parts_cons, usedBy_parts_cons, hrest, hused, hsplit, Split.used_rename,
        List.map_append]

variable (alphabet alphabet' : Alphabet) {patterns patterns' : Category → List Pattern}
  (hpatterns : ∀ category,
    List.Forall₂ (Pattern.Renamed π) (patterns category) (patterns' category))
include hpatterns

/-- A dispatch of corresponding patterns takes the same bytes under their new names. -/
theorem run_dispatch_renamed {category : Category} {before ahead used left : List Byte}
    {tokens : List Token}
    (hrun : ((Tokenizer.ofPatterns alphabet patterns).dispatch category).run (between before ahead)
      = (tokens, between (before ++ used) left)) :
    ((Tokenizer.ofPatterns alphabet' patterns').dispatch category).run
        (between (before.map π) (ahead.map π))
      = (tokens.map (·.rename π), between (before.map π ++ used.map π) (left.map π)) := by
  rw [Tokenizer.run_dispatch_ofPatterns_iff] at hrun ⊢
  obtain ⟨rfl, rfl, hahead⟩ := hrun
  obtain ⟨htokens, hused⟩ :=
    Pattern.parts_map hlf (hpatterns category) (category.afterMarker ahead)
  refine ⟨?_, ?_, ?_⟩
  · rw [Pattern.dispatched, Pattern.dispatched, category.afterMarker_map, htokens]
  · rw [Pattern.taken, Pattern.taken, Pattern.dispatched, Pattern.dispatched,
      category.afterMarker_map, category.marker_map, hused, List.map_append]
  · rw [← List.map_append, ← hahead]

omit hlf in
theorem Tokenizer.dispatchAt_rename (before : List Byte) (byte : Byte) (category : Category)
    (tokens : List Token) :
    ((ofPatterns alphabet patterns).dispatchAt before byte category tokens).rename π
      = (ofPatterns alphabet' patterns').dispatchAt (before.map π) (π byte) category
        (tokens.map (·.rename π)) := by
  have hcount : (ofPatterns alphabet patterns).ruleCount category
      = (ofPatterns alphabet' patterns').ruleCount category := by
    simpa [ruleCount, ofPatterns] using (hpatterns category).length_eq
  rw [dispatchAt, dispatchAt, List.length_map, ← hcount]
  rfl

variable {alphabet alphabet'} (halphabet : alphabet.Renamed π alphabet')
include halphabet

/-- A turn under the new names is the same turn with the new names. -/
theorem Tokenizer.TurnsTo.renamed {before ahead : List Byte} {turn : Turn}
    (h : (ofPatterns alphabet patterns).TurnsTo before ahead turn) :
    (ofPatterns alphabet' patterns').TurnsTo (before.map π) (ahead.map π)
      (turn.map (·.rename π) (·.rename π) (·.rename π)) := by
  cases h with
  | ended => exact .ended
  | @unknown byte rest hclass =>
    rw [Turn.map, Failure.rename, ← Location.after_map hlf]
    exact .unknown ((halphabet.classify byte).trans hclass)
  | @ignored byte rest hclass =>
    rw [Turn.map, Cursor.rename_between, List.map_append]
    exact .ignored ((halphabet.classify byte).trans hclass)
  | @stalled byte rest category tokens hclass hrun =>
    have hstill : ((ofPatterns alphabet patterns).dispatch category).run
        (between before (byte :: rest)) = (tokens, between (before ++ []) (byte :: rest)) := by
      rw [List.append_nil]
      exact hrun
    have hrun' := run_dispatch_renamed hlf alphabet alphabet' hpatterns hstill
    rw [List.map_nil, List.append_nil] at hrun'
    rw [Turn.map, Failure.rename, ← Location.after_map hlf, Option.map_some,
      dispatchAt_rename alphabet alphabet' hpatterns]
    exact .stalled ((halphabet.classify byte).trans hclass) hrun'
  | @dispatched byte rest more left category tokens hclass hrest hrun =>
    have hrun' := run_dispatch_renamed hlf alphabet alphabet' hpatterns hrun
    rw [Turn.map, Cursor.rename_between, List.map_append, Option.map_some,
      dispatchAt_rename alphabet alphabet' hpatterns]
    have hrest' : rest.map π = more.map π ++ left.map π := by
      rw [hrest, List.map_append]
    exact .dispatched ((halphabet.classify byte).trans hclass) hrest' hrun'

/-! ## Runs -/

/-- The run under the new names is the same run with the new names. -/
theorem run_renamed (content : List Byte) :
    (Tokenizer.ofPatterns alphabet' patterns').run (content.map π)
      = ((Tokenizer.ofPatterns alphabet patterns).run content).map (·.rename π) (·.rename π) := by
  have hturns : ∀ before ahead,
      (Tokenizer.ofPatterns alphabet' patterns').turn ((between before ahead).rename π)
        = ((Tokenizer.ofPatterns alphabet patterns).turn (between before ahead)).map
          (·.rename π) (·.rename π) (·.rename π) := by
    intro before ahead
    have hturns := (Tokenizer.ofPatterns alphabet patterns).turnsTo_turn before ahead
    rw [Cursor.rename_between]
    exact (hturns.renamed hlf hpatterns halphabet).turn_eq
  have hrun := Tokenizer.runFrom_map hturns [] content
  rw [Cursor.rename_between, List.map_nil] at hrun
  rw [Tokenizer.run, Tokenizer.run, Cursor.advance_fresh, Cursor.advance_fresh, hrun]

end Renaming

/-- The result of a run with new names. -/
theorem Run.result_map_rename (π : Byte → Byte) (r : Run) :
    (r.map (·.rename π) (·.rename π)).result
      = match r.result with
        | .ok tokens => .ok (tokens.map (·.rename π))
        | .error failure => .error (failure.rename π) := by
  obtain ⟨dispatches, failure⟩ := r
  cases failure with
  | none =>
    show Except.ok ((dispatches.map (·.rename π)).flatMap (·.tokens))
      = Except.ok ((dispatches.flatMap (·.tokens)).map (·.rename π))
    rw [List.flatMap_map, List.map_flatMap]
    rfl
  | some failure => rfl

theorem Token.rename_id : Token.rename id = id := by
  funext token
  rw [rename, List.map_id]
  rfl

theorem Failure.rename_id (failure : Failure) : failure.rename id = failure := by
  cases failure <;> rfl

/-- **Tokenizing does not depend on the names of bytes.**  If two tokenizers of patterns
    correspond under a permutation that keeps the line feed, the second makes of a content under
    its new names what the first makes of the content: the same tokens with the new names, or the
    same failure at the same place.  If no name is changed, they make the same of every content,
    however their tests are written. -/
theorem tokenize_renamed {π : Equiv.Perm Byte} (hlf : π Byte.lineFeed = Byte.lineFeed)
    {alphabet alphabet' : Alphabet} {patterns patterns' : Category → List Pattern}
    (halphabet : alphabet.Renamed π alphabet')
    (hpatterns : ∀ category,
      List.Forall₂ (Pattern.Renamed π) (patterns category) (patterns' category))
    (content : List Byte) :
    (Tokenizer.ofPatterns alphabet' patterns').tokenize (content.map π)
        = (match (Tokenizer.ofPatterns alphabet patterns).tokenize content with
          | .ok tokens => .ok (tokens.map (·.rename π))
          | .error failure => .error (failure.rename π))
      ∧ (π = Equiv.refl Byte → (Tokenizer.ofPatterns alphabet' patterns').tokenize content
        = (Tokenizer.ofPatterns alphabet patterns).tokenize content) := by
  have hrenamed := congrArg Run.result (run_renamed hlf hpatterns halphabet content)
  rw [Run.result_map_rename] at hrenamed
  refine ⟨hrenamed, ?_⟩
  rintro rfl
  rw [Equiv.coe_refl, List.map_id] at hrenamed
  rw [Tokenizer.tokenize, Tokenizer.tokenize, hrenamed]
  cases ((Tokenizer.ofPatterns alphabet patterns).run content).result with
  | ok tokens =>
    show Except.ok (tokens.map (Token.rename id)) = _
    rw [Token.rename_id, List.map_id]
  | error failure =>
    show Except.error (failure.rename id) = _
    rw [failure.rename_id]

/-- Words, strings and comments of a language with few letters. -/
def fewLetters (letters : List Byte) : Alphabet where
  extraLetters := .listed letters
  quotes := .listed [0x22]
  comments := .listed [0x23]
  ignored := .listed [0x0a]

/-- The patterns of that language: a shape for its words, and the escape byte of its strings. -/
def fewLettersPatterns (word : Shape) (escape : Byte) : Category → List Pattern
  | .identifier => [⟨.identifier, word⟩]
  | .string => [⟨.string, .delimited (.listed [0x22]) (some escape)⟩]
  | .comment => [⟨.comment, .line⟩]
  | .number | .delimiter => []

-- the letters a and b, where a is also the escape byte; then the same with 0 in the place of a,
-- points in the place of a range, and a letter listed twice
theorem tokenize_renamed_fewLetters :
    (Tokenizer.ofPatterns (fewLetters [0x61, 0x62])
        (fewLettersPatterns (.rangeRun (.interval 0x61 0x62) .never) 0x61)).tokenize
          [0x61, 0x62, 0x22, 0x61, 0x22, 0x62, 0x22, 0x0a, 0x23, 0x61]
        = .ok [⟨.identifier, [0x61, 0x62]⟩, ⟨.string, [0x61, 0x22, 0x62]⟩, ⟨.comment, [0x61]⟩]
      ∧ (Tokenizer.ofPatterns (fewLetters [0x62, 0x00, 0x62])
        (fewLettersPatterns (.pointsRun (.listed [0x00, 0x62])) 0x00)).tokenize
          [0x00, 0x62, 0x22, 0x00, 0x22, 0x62, 0x22, 0x0a, 0x23, 0x00]
        = .ok [⟨.identifier, [0x00, 0x62]⟩, ⟨.string, [0x00, 0x22, 0x62]⟩, ⟨.comment, [0x00]⟩] := by
  have hok : (Tokenizer.ofPatterns (fewLetters [0x61, 0x62])
      (fewLettersPatterns (.rangeRun (.interval 0x61 0x62) .never) 0x61)).tokenize
        [0x61, 0x62, 0x22, 0x61, 0x22, 0x62, 0x22, 0x0a, 0x23, 0x61]
      = .ok [⟨.identifier, [0x61, 0x62]⟩, ⟨.string, [0x61, 0x22, 0x62]⟩, ⟨.comment, [0x61]⟩] := by
    cbv
  have halphabet : (fewLetters [0x61, 0x62]).Renamed (Equiv.swap 0x61 0x00)
      (fewLetters [0x62, 0x00, 0x62]) := by
    constructor <;> exact Byte.forall_of_all (by decide +kernel)
  have hpatterns : ∀ category, List.Forall₂ (Pattern.Renamed (Equiv.swap 0x61 0x00))
      (fewLettersPatterns (.rangeRun (.interval 0x61 0x62) .never) 0x61 category)
      (fewLettersPatterns (.pointsRun (.listed [0x00, 0x62])) 0x00 category) := by
    intro category
    cases category with
    | number => exact .nil
    | delimiter => exact .nil
    | identifier =>
      have htest := Byte.forall_of_all
        (p := fun b => (Points.listed [0x00, 0x62]).accepts (Equiv.swap 0x61 0x00 b)
          = ((Range.interval 0x61 0x62).accepts b || Points.never.accepts b)) (by decide +kernel)
      exact .cons ⟨rfl, .run rfl rfl htest⟩ .nil
    | string =>
      have hclose := Byte.forall_of_all
        (p := fun b => (Points.listed [0x22]).accepts (Equiv.swap 0x61 0x00 b)
          = (Points.listed [0x22]).accepts b) (by decide +kernel)
      exact .cons ⟨rfl, .delimited (some 0x61) hclose⟩ .nil
    | comment => exact .cons ⟨rfl, .line⟩ .nil
  have hrenamed := (tokenize_renamed (by decide) halphabet hpatterns
    [0x61, 0x62, 0x22, 0x61, 0x22, 0x62, 0x22, 0x0a, 0x23, 0x61]).1
  rw [hok] at hrenamed
  exact ⟨hok, hrenamed⟩

end ByteTokenizer
