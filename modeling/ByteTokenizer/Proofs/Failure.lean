/-
  FAILURES TELL THE TRUTH: what a failed run says of its content is so.

  An unexpected byte is the byte at the place that is named, and none of the alphabet's seven
  tests accepts it.  A stalled category is the one that the byte at the place opens, it has no
  opening marker, and its rules, applied there one after the other, leave the cursor where it is.
  In both cases line and column are those of the offset.  That is `Failure.Holds`.

  A category with a marker cannot stall because the marker is stepped over before its rules are
  applied, and rules only advance: not even a marker that is the last byte is an exception.  A
  category without a marker cannot stall as soon as one of its rules advances every cursor on a
  byte of that category, for if the rules together leave the cursor where it is, then each of
  them was applied there and left it there (`run_eq_of_applyAll_eq`).

  As for progress, nothing is known of the rules but that they advance the cursor.
-/
import ByteTokenizer.Proofs.Rule.Pattern
import ByteTokenizer.Proofs.Tokenizer.Head

namespace ByteTokenizer

open Cursor (between)

/-- What the failure of the tokenizer says of the content is so. -/
def Failure.Holds (t : Tokenizer) (content : List Byte) : Failure → Prop
  | .absentContent => False
  | .unexpectedByte byte location =>
    location.offset < content.length
      ∧ content[location.offset]? = some byte
      ∧ t.alphabet.mentions byte = false
      ∧ location = .ofOffset content location.offset
  | .stalled category location =>
    location.offset < content.length
      ∧ (∃ byte, content[location.offset]? = some byte
        ∧ t.alphabet.classify byte = some (.opens category))
      ∧ (category = .number ∨ category = .identifier ∨ category = .delimiter)
      ∧ location = .ofOffset content location.offset
      ∧ ((Tokenizer.applyAll (t.rules category)).run (.onOffset content location.offset)).2
        = .onOffset content location.offset

/-! ## Rules that stand still -/

/-- If rules together leave a cursor on a byte where it is, then each of them does. -/
theorem run_eq_of_applyAll_eq {rules : List Rule} {c : Cursor} (hbyte : c.current ≠ none)
    (hsame : ((Tokenizer.applyAll rules).run c).2 = c) : ∀ rule ∈ rules, (rule.run c).2 = c := by
  induction rules with
  | nil => exact fun rule hrule => absurd hrule List.not_mem_nil
  | cons first rules ih =>
    have hrest : ((Tokenizer.applyAll rules).run (first.run c).2).2 = c := hsame
    have hback := (Tokenizer.applyAll rules).forward (first.run c).2
    rw [hrest] at hback
    have hfirst : (first.run c).2 = c := Cursor.Reaches.antisymm (first.forward c) hback hbyte
    have hothers : ((Tokenizer.applyAll rules).run c).2 = c := by rwa [hfirst] at hrest
    intro rule hrule
    rcases List.mem_cons.1 hrule with rfl | hrule
    · exact hfirst
    · exact ih hothers rule hrule

/-- A category with a marker does not stall: the marker is stepped over. -/
theorem hasMarker_eq_false_of_stalled {t : Tokenizer} {category : Category} {c : Cursor}
    (hbyte : c.current ≠ none) (hsame : ((t.dispatch category).run c).2 = c) :
    category.hasMarker = false := by
  cases hmarker : category.hasMarker with
  | false => rfl
  | true =>
    rw [Tokenizer.run_dispatch, hmarker, if_pos rfl] at hsame
    have hback := (Tokenizer.applyAll (t.rules category)).forward c.advance
    rw [hsame] at hback
    have hstill : c.advance = c := (Cursor.Reaches.advance c).antisymm hback hbyte
    have hlt := Cursor.left_advance_lt hbyte
    rw [hstill] at hlt
    omega

theorem Category.hasMarker_eq_false_iff (category : Category) :
    category.hasMarker = false
      ↔ category = .number ∨ category = .identifier ∨ category = .delimiter := by
  cases category <;> simp [hasMarker]

/-! ## The failing turn -/

/-- The failure of a turn holds of the content that the turn's head divides. -/
theorem holds_of_turnsTo {t : Tokenizer} {before ahead : List Byte} {dispatch : Option Dispatch}
    {failure : Failure} (h : Tokenizer.TurnsTo t before ahead (.failed dispatch failure)) :
    failure.Holds t (before ++ ahead) := by
  cases h with
  | @unknown byte rest hclass =>
    have hmentions : t.alphabet.mentions byte = false := by
      rw [← Alphabet.isSome_classify, hclass]
      rfl
    exact ⟨by simp [Location.after], by simp [Location.after], hmentions,
      (Location.ofOffset_append before _).symm⟩
  | @stalled byte rest category tokens hclass hrun =>
    have hbyte : (between before (byte :: rest)).current ≠ none := by simp
    have hsame : ((t.dispatch category).run (between before (byte :: rest))).2
        = between before (byte :: rest) := by rw [hrun]
    have hmarker := hasMarker_eq_false_of_stalled hbyte hsame
    refine ⟨by simp [Location.after], ⟨byte, by simp [Location.after], hclass⟩,
      (Category.hasMarker_eq_false_iff category).1 hmarker,
      (Location.ofOffset_append before _).symm, ?_⟩
    rw [Tokenizer.run_dispatch, hmarker, if_neg Bool.false_ne_true] at hsame
    show ((Tokenizer.applyAll (t.rules category)).run
      (.onOffset (before ++ byte :: rest) before.length)).2
        = .onOffset (before ++ byte :: rest) before.length
    rw [Cursor.onOffset_append]
    exact hsame

namespace Varying

/-- A run that fails does so in the turn at one of its heads, and what it says is so. -/
theorem exists_turn_of_tokenize?_error {v : Varying} {content : List Byte} {failure : Failure}
    (hfail : v.tokenize? (some content) = .error failure) :
    ∃ n h dispatch, v.head content n = some h
      ∧ (v.inTurn n).turn h.cursor = .failed dispatch failure
      ∧ failure.Holds (v.inTurn n) content := by
  obtain ⟨n, h, dispatch, hhead, hturn⟩ := exists_head_of_result_error hfail
  obtain ⟨before, ahead, rfl, -, hcursor⟩ := exists_between_of_head hhead
  have hturns := Tokenizer.turnsTo_of_turn_eq hcursor hturn
  exact ⟨n, h, dispatch, hhead, hturn, holds_of_turnsTo hturns⟩

end Varying

/-- A stalled category has no rule that advances every cursor on a byte of the category. -/
theorem not_holds_stalled {t : Tokenizer} {content : List Byte} {category : Category}
    {location : Location} {rule : Rule} (hrule : rule ∈ t.rules category)
    (hmoves : ∀ c byte, c.current = some byte →
      t.alphabet.classify byte = some (.opens category) → (rule.run c).2 ≠ c) :
    ¬ (Failure.stalled category location).Holds t content := by
  rintro ⟨hlt, ⟨byte, hget, hclass⟩, -, -, hsame⟩
  have hcur := (Cursor.current_onOffset hlt).trans hget
  have hbyte : (Cursor.onOffset content location.offset).current ≠ none := by simp [hcur]
  exact hmoves _ byte hcur hclass (run_eq_of_applyAll_eq hbyte hsame rule hrule)

/-- **Failures tell the truth.**  Without content there is nothing to fail at, and with content
    that is not what the failure says.  Any other failure is that of a turn at a head of the run
    and holds of the content.  If each category without a marker always has some rule that
    advances every cursor on a byte of the category, then no category stalls.  A plain tokenizer
    is the case in which the rules are the same in all turns. -/
theorem failures_tell_the_truth (v : Varying) :
    v.tokenize? none = .error .absentContent
      ∧ (∀ content, v.tokenize? (some content) ≠ .error .absentContent)
      ∧ (∀ content failure, v.tokenize? (some content) = .error failure →
        ∃ n h dispatch, v.head content n = some h
          ∧ (v.inTurn n).turn h.cursor = .failed dispatch failure
          ∧ failure.Holds (v.inTurn n) content)
      ∧ ((∀ n category, category = .number ∨ category = .identifier ∨ category = .delimiter →
          ∃ rule ∈ v.rules n category, ∀ c byte, c.current = some byte →
            v.alphabet.classify byte = some (.opens category) → (rule.run c).2 ≠ c) →
        ∀ content category location,
          v.tokenize? (some content) ≠ .error (.stalled category location))
      ∧ ∀ t : Tokenizer, (∀ content, t.steady.tokenize? content = t.tokenize? content)
        ∧ ∀ n, t.steady.inTurn n = t := by
  refine ⟨rfl, ?_, fun content failure => Varying.exists_turn_of_tokenize?_error, ?_,
    fun t => ⟨Varying.tokenize?_steady t, Varying.inTurn_steady t⟩⟩
  · intro content hfail
    obtain ⟨n, h, dispatch, -, -, hholds⟩ := Varying.exists_turn_of_tokenize?_error hfail
    exact hholds
  · intro hmoves content category location hfail
    obtain ⟨n, h, dispatch, -, -, hholds⟩ := Varying.exists_turn_of_tokenize?_error hfail
    obtain ⟨rule, hrule, hadvances⟩ := hmoves n category hholds.2.2.1
    exact not_holds_stalled hrule hadvances hholds

/-- Digits, letters and semicolons are taken one by one and blanks are ignored; the rules for the
    semicolon are yet to be given. -/
def oneByOne (semicolon : List Pattern) : Tokenizer := .ofPatterns
  { numbers := .digits, letters := .interval 0x61 0x7a, delimiters := .listed [0x3b],
    ignored := .listed [0x20] }
  fun
    | .number => [⟨.number, .single⟩]
    | .identifier => [⟨.identifier, .single⟩]
    | .delimiter => semicolon
    | .string | .comment => []

-- 7, blank, semicolon: without a rule for it the semicolon stalls, with one nothing ever stalls
theorem failures_tell_the_truth_oneByOne :
    (oneByOne []).steady.tokenize? (some [0x37, 0x20, 0x3b])
        = .error (.stalled .delimiter ⟨1, 3, 2⟩)
      ∧ (Failure.stalled .delimiter ⟨1, 3, 2⟩).Holds (oneByOne []) [0x37, 0x20, 0x3b]
      ∧ ∀ content category location,
        (oneByOne [⟨.delimiter, .single⟩]).steady.tokenize? (some content)
          ≠ .error (.stalled category location) := by
  have hstalled : (oneByOne []).steady.tokenize? (some [0x37, 0x20, 0x3b])
      = .error (.stalled .delimiter ⟨1, 3, 2⟩) := by cbv
  refine ⟨hstalled, ?_, ?_⟩
  · obtain ⟨n, h, dispatch, -, -, hholds⟩ :=
      (failures_tell_the_truth (oneByOne []).steady).2.2.1 _ _ hstalled
    exact hholds
  · refine (failures_tell_the_truth (oneByOne [⟨.delimiter, .single⟩]).steady).2.2.2.1 ?_
    rintro n category (rfl | rfl | rfl)
    · exact ⟨_, List.mem_cons_self, fun c byte hbyte _ => Pattern.run_single_ne hbyte⟩
    · exact ⟨_, List.mem_cons_self, fun c byte hbyte _ => Pattern.run_single_ne hbyte⟩
    · exact ⟨_, List.mem_cons_self, fun c byte hbyte _ => Pattern.run_single_ne hbyte⟩

end ByteTokenizer
