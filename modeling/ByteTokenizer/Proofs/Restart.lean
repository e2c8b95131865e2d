/-
  RESTART: a run forgets what lies behind it.

  Suppose that the run over `front ++ rest` comes to a head at the offset where `rest` begins.
  Then it could as well have been two runs.

  1. Cutting: every turn up to that head does the same on `front` alone.  A rule that stopped in
     front of the first byte of `rest` now stops at the end of the input, where positions and the
     check for progress are not the same; but a turn takes bytes of `front` only, and so it does
     the same with nothing in the place of `rest` (`head_exchange`).

  2. Shifting: every turn from that head on does the same on `rest` alone, only that all places
     are counted from the beginning of `rest` (`TurnsTo.behind`).  What a turn does depends on
     the bytes ahead alone, so the one run is the other translated (`Tokenizer.runFrom_map`).

  So the dispatches are those of `front` followed by those of `rest`, and a failure is that of
  `rest` at its place behind `front` (`run_append_of_head`).
-/
import ByteTokenizer.Proofs.Exchange
import ByteTokenizer.Proofs.Location
import ByteTokenizer.Proofs.Tokenizer.Simulation

namespace ByteTokenizer

open Cursor (between)

/-! ## Behind other bytes -/

/-- The failure in the content that has `front` before it. -/
def Failure.behind (front : List Byte) : Failure → Failure
  | .absentContent => .absentContent
  | .unexpectedByte byte location => .unexpectedByte byte (location.behind front)
  | .stalled category location => .stalled category (location.behind front)

/-- The dispatch in the content that has `front` before it. -/
def Dispatch.behind (front : List Byte) (dispatch : Dispatch) : Dispatch :=
  { dispatch with offset := front.length + dispatch.offset }

/-- The cursor on the same byte of the content that has `front` before it. -/
def Cursor.behind (front : List Byte) : Cursor → Cursor
  | .fresh content => .fresh (front ++ content)
  | .on before byte rest => .on (front.toArray ++ before) byte rest
  | .past content => .past (front.toArray ++ content)

/-- The turn in the content that has `front` before it. -/
def Turn.behind (front : List Byte) : Turn → Turn
  | .finished => .finished
  | .failed dispatch failure => .failed (dispatch.map (·.behind front)) (failure.behind front)
  | .onward dispatch next => .onward (dispatch.map (·.behind front)) (next.behind front)

@[simp] theorem Cursor.behind_between (front before ahead : List Byte) :
    (between before ahead).behind front = between (front ++ before) ahead := by
  cases ahead <;> simp [between, behind]

theorem Tokenizer.dispatchAt_behind (t : Tokenizer) (front before : List Byte) (byte : Byte)
    (category : Category) (tokens : List Token) :
    (t.dispatchAt before byte category tokens).behind front
      = t.dispatchAt (front ++ before) byte category tokens := by
  simp [Dispatch.behind, dispatchAt]

variable {alphabet : Alphabet} {patterns : Category → List Pattern}

/-! ## Shifting -/

/-- A dispatch of patterns depends on the bytes ahead alone. -/
theorem run_dispatch_behind {category : Category} {before ahead used left : List Byte}
    {tokens : List Token} (front : List Byte)
    (hrun : ((Tokenizer.ofPatterns alphabet patterns).dispatch category).run (between before ahead)
      = (tokens, between (before ++ used) left)) :
    ((Tokenizer.ofPatterns alphabet patterns).dispatch category).run
        (between (front ++ before) ahead)
      = (tokens, between (front ++ before ++ used) left) := by
  rw [Tokenizer.run_dispatch_ofPatterns_iff] at hrun ⊢
  exact hrun

/-- A turn behind other bytes is the same turn, with all places moved on by these. -/
theorem Tokenizer.TurnsTo.behind {before ahead : List Byte} {turn : Turn} (front : List Byte)
    (h : (ofPatterns alphabet patterns).TurnsTo before ahead turn) :
    (ofPatterns alphabet patterns).TurnsTo (front ++ before) ahead (turn.behind front) := by
  cases h with
  | ended => exact .ended
  | unknown hclass =>
    rw [Turn.behind, Failure.behind, ← Location.after_append]
    exact .unknown hclass
  | ignored hclass =>
    rw [Turn.behind, Cursor.behind_between, ← List.append_assoc]
    exact .ignored hclass
  | @stalled byte rest category tokens hclass hrun =>
    have hstill : ((ofPatterns alphabet patterns).dispatch category).run
        (between before (byte :: rest)) = (tokens, between (before ++ []) (byte :: rest)) := by
      rw [List.append_nil]
      exact hrun
    have hrun' := run_dispatch_behind front hstill
    rw [List.append_nil] at hrun'
    rw [Turn.behind, Failure.behind, ← Location.after_append, Option.map_some, dispatchAt_behind]
    exact .stalled hclass hrun'
  | @dispatched byte rest more left category tokens hclass hrest hrun =>
    have hrun' := run_dispatch_behind front hrun
    rw [Turn.behind, Cursor.behind_between, ← List.append_assoc, Option.map_some,
      dispatchAt_behind]
    exact .dispatched hclass hrest hrun'

/-- The turn at a cursor behind `front` is the turn at the cursor, moved on by `front`. -/
theorem turn_behind (alphabet : Alphabet) (patterns : Category → List Pattern)
    (front before ahead : List Byte) :
    (Tokenizer.ofPatterns alphabet patterns).turn ((between before ahead).behind front)
      = ((Tokenizer.ofPatterns alphabet patterns).turn (between before ahead)).map
        (·.behind front) (·.behind front) (·.behind front) := by
  have hturns := (Tokenizer.ofPatterns alphabet patterns).turnsTo_turn before ahead
  rw [Cursor.behind_between, (hturns.behind front).turn_eq]
  cases (Tokenizer.ofPatterns alphabet patterns).turn (between before ahead) <;> rfl

/-! ## Two runs for one -/

/-- The run in the content that has `front` before it. -/
def Run.behind (front : List Byte) (r : Run) : Run where
  dispatches := r.dispatches.map (·.behind front)
  failure := r.failure.map (·.behind front)

/-- Behind dispatches that gave `tokens` and the bytes `front`, a run gives `tokens` first, and
    its failure is at the place behind `front`. -/
theorem Run.result_append_behind (dispatches : List Dispatch) (front : List Byte) (r : Run) :
    (Run.mk (dispatches ++ (r.behind front).dispatches) (r.behind front).failure).result
      = match r.result with
        | .ok more => .ok (dispatches.flatMap (·.tokens) ++ more)
        | .error failure => .error (failure.behind front) := by
  obtain ⟨later, failure⟩ := r
  cases failure with
  | none =>
    show Except.ok ((dispatches ++ later.map (·.behind front)).flatMap (·.tokens))
      = Except.ok (dispatches.flatMap (·.tokens) ++ later.flatMap (·.tokens))
    rw [List.flatMap_append, List.flatMap_map]
    rfl
  | some failure => rfl

/-- A head at the end of `front` divides there, and `front` alone runs up to it. -/
theorem run_front_of_head {front rest : List Byte} {n : Nat} {h : Head}
    (hhead : (Tokenizer.ofPatterns alphabet patterns).steady.head (front ++ rest) n = some h)
    (hoffset : h.cursor.offset = front.length) :
    h.cursor = between front rest
      ∧ (Tokenizer.ofPatterns alphabet patterns).run front = ⟨h.dispatches, none⟩ := by
  have hempty : ∀ b ∈ ([] : List Byte).head?, b ∈ rest.head? := fun b hb => nomatch hb
  obtain ⟨before, left, hfront, hcursor, hcut⟩ :=
    head_exchange hempty hhead (Nat.le_of_eq hoffset)
  have hleft : left = [] := by
    rw [hcursor, Cursor.offset_between, hfront, List.length_append] at hoffset
    exact List.length_eq_zero_iff.1 (by omega)
  rw [hleft, List.append_nil] at hfront
  rw [List.append_nil, hleft, List.append_nil, ← hfront] at hcut
  rw [hleft, ← hfront] at hcursor
  have hended : (Tokenizer.ofPatterns alphabet patterns).turn (between front []) = .finished :=
    Tokenizer.TurnsTo.ended.turn_eq
  have hrun := Varying.run_of_finished hcut hended
  rw [Varying.run_steady] at hrun
  exact ⟨hcursor, hrun⟩

/-- From the head at which `rest` begins, the run is that of `rest` behind `front`. -/
theorem run_append_of_head {front rest : List Byte} {n : Nat} {start : Head}
    (hstart : (Tokenizer.ofPatterns alphabet patterns).steady.head (front ++ rest) n = some start)
    (hcursor : start.cursor = between front rest) :
    (Tokenizer.ofPatterns alphabet patterns).run (front ++ rest)
      = ⟨start.dispatches
            ++ (((Tokenizer.ofPatterns alphabet patterns).run rest).behind front).dispatches,
          (((Tokenizer.ofPatterns alphabet patterns).run rest).behind front).failure⟩ := by
  have hshift := Tokenizer.runFrom_map (turn_behind alphabet patterns front) [] rest
  rw [Cursor.behind_between, List.append_nil] at hshift
  rw [← Varying.run_steady, Varying.run_eq_of_head hstart, Varying.runFrom_steady, hcursor, hshift,
    Tokenizer.run, Cursor.advance_fresh]
  rfl

/-- **A run restarts at every head.**  If the run over `front ++ rest` comes to a head at the
    offset where `rest` begins, then `front` alone has the tokens so far, and the whole has these
    and behind them those of `rest`; or it fails as `rest` does, at the place behind `front`. -/
theorem tokenize_append_of_head {front rest : List Byte} {n : Nat} {h : Head}
    (hhead : (Tokenizer.ofPatterns alphabet patterns).steady.head (front ++ rest) n = some h)
    (hoffset : h.cursor.offset = front.length) :
    (Tokenizer.ofPatterns alphabet patterns).tokenize front = .ok h.tokens
      ∧ (Tokenizer.ofPatterns alphabet patterns).tokenize (front ++ rest)
        = match (Tokenizer.ofPatterns alphabet patterns).tokenize rest with
          | .ok more => .ok (h.tokens ++ more)
          | .error failure => .error (failure.behind front) := by
  obtain ⟨hcursor, hfront⟩ := run_front_of_head hhead hoffset
  constructor
  · rw [Tokenizer.tokenize, hfront]
    rfl
  · rw [Tokenizer.tokenize, run_append_of_head hhead hcursor]
    exact Run.result_append_behind ..

/-- Words of small letters; blanks and line feeds are ignored. -/
def words : Tokenizer := .ofPatterns
  { letters := .interval 0x61 0x7a, ignored := .listed [0x20, 0x0a] }
  fun
    | .identifier => [⟨.identifier, .rangeRun (.interval 0x61 0x7a) (.listed [])⟩]
    | .number | .string | .comment | .delimiter => []

-- a, b, LF, c, d, then blank, question mark: the second byte of the rest is the fourth of line 2
theorem tokenize_append_of_head_words :
    words.tokenize [0x61, 0x62, 0x0a, 0x63, 0x64]
        = .ok [⟨.identifier, [0x61, 0x62]⟩, ⟨.identifier, [0x63, 0x64]⟩]
      ∧ words.tokenize [0x20, 0x3f] = .error (.unexpectedByte 0x3f ⟨1, 2, 1⟩)
      ∧ words.tokenize ([0x61, 0x62, 0x0a, 0x63, 0x64] ++ [0x20, 0x3f])
        = .error (.unexpectedByte 0x3f ⟨2, 4, 6⟩) := by
  have hrest : words.tokenize [0x20, 0x3f] = .error (.unexpectedByte 0x3f ⟨1, 2, 1⟩) := by cbv
  have hhead : words.steady.head ([0x61, 0x62, 0x0a, 0x63, 0x64] ++ [0x20, 0x3f]) 3
      = some ⟨[⟨0x61, 0, .identifier, 1, [⟨.identifier, [0x61, 0x62]⟩]⟩,
          ⟨0x63, 3, .identifier, 1, [⟨.identifier, [0x63, 0x64]⟩]⟩],
        .on #[0x61, 0x62, 0x0a, 0x63, 0x64] 0x20 [0x3f]⟩ := by decide
  obtain ⟨hfront, hwhole⟩ := tokenize_append_of_head hhead rfl
  refine ⟨hfront, hrest, ?_⟩
  unfold words at hrest ⊢
  rw [hwhole, hrest]
  rfl

end ByteTokenizer
