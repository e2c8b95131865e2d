/-
  TOKENS AS TEXT: what of a token's bytes can be read off its two texts.

  A token gives its bytes as text if they are text, and it can always be shown: its kind and, in
  parentheses, its bytes read with replacements.  The names of kinds have no parenthesis in them,
  so what stands in the parentheses can be found again (`inParentheses_display`).

  Both texts come from one reading of the bytes, in characters and malformed parts, and there is
  no other reading.  So they agree where there is no malformed part; every malformed part is seen
  as one replacement; and a byte of ASCII parts what is shown into what is shown of the bytes
  before it and of those behind it.
-/
import ByteTokenizer.Proofs.Text.Decoding
import ByteTokenizer.Token

namespace ByteTokenizer

/-- What stands between the first opening parenthesis of a text and its last character. -/
def inParentheses (text : String) : String :=
  String.ofList (text.toList.dropWhile (· ≠ '(')).tail.dropLast

theorem inParentheses_append {name : String} (hname : '(' ∉ name.toList) (text : String) :
    inParentheses (name ++ "(" ++ text ++ ")") = text := by
  have hdrop : (name ++ "(" ++ text ++ ")").toList.dropWhile (· ≠ '(')
      = '(' :: (text.toList ++ [')']) := by
    have hall : ∀ c ∈ name.toList, decide (c ≠ '(') = true := fun c hc =>
      decide_eq_true fun heq => hname (heq ▸ hc)
    rw [String.toList_append, String.toList_append, String.toList_append, List.append_assoc,
      List.append_assoc, List.dropWhile_append_of_pos hall]
    rfl
  rw [inParentheses, hdrop, List.tail_cons, List.dropLast_concat, String.ofList_toList]

theorem inParentheses_display (token : Token) :
    inParentheses token.display = Text.Utf8.lossy token.value := by
  refine inParentheses_append ?_ _
  cases token.kind <;> decide

open Text (Utf8.encode Utf8.replacement Utf8.Reads)

/-- How a token is told as text. -/
structure Token.ToldAsText (token : Token) : Prop where
  /-- The token has a text if its bytes are the encoding of that text, and only then. -/
  text?_iff : ∀ text, token.text? = some text ↔ token.value = Utf8.encode text
  /-- That text is shown. -/
  display_eq : ∀ text, token.text? = some text →
    token.display = token.kind.name ++ "(" ++ text ++ ")"
  /-- A token without a text is shown with a replacement. -/
  replacement_mem : token.text? = none → Utf8.replacement ∈ (inParentheses token.display).toList
  /-- There is one reading of the bytes, and each of its malformed parts is shown as one
      replacement. -/
  reading : ∃ items, Utf8.Reads token.value items
    ∧ (∀ items', Utf8.Reads token.value items' → items' = items)
    ∧ (inParentheses token.display).toList = items.map (·.getD Utf8.replacement)

theorem Token.toldAsText (token : Token) : token.ToldAsText where
  text?_iff _ := Text.Utf8.strict?_eq_some_iff
  display_eq text htext := by
    rw [display, (Text.Utf8.of_strict?_eq_some htext).2]
  replacement_mem hnone := by
    rw [inParentheses_display]
    exact Text.Utf8.replacement_mem_lossy hnone
  reading := by
    refine ⟨Text.Utf8.decode token.value, Text.Utf8.reads_decode _, ?_, ?_⟩
    · intro items hitems
      exact (Text.Utf8.reads_iff.1 hitems).symm
    · rw [inParentheses_display, Text.Utf8.lossy, String.toList_ofList]

/-- **The two texts of a token agree.**  A token has a text exactly if its bytes encode one, and
    then it is shown with it; otherwise a replacement is seen.  Bytes of ASCII are shown as
    themselves and in order, whatever stands around them. -/
theorem token_texts_agree :
    (∀ token : Token, token.ToldAsText)
      ∧ ∀ (kind : Kind) (front behind : List Byte) (a : Byte), a < 0x80 →
        inParentheses (Token.display ⟨kind, front ++ [a] ++ behind⟩)
          = inParentheses (Token.display ⟨kind, front⟩) ++ String.ofList [Char.ofNat a.toNat]
            ++ inParentheses (Token.display ⟨kind, behind⟩) := by
  refine ⟨Token.toldAsText, fun kind front behind a hascii => ?_⟩
  rw [inParentheses_display, inParentheses_display, inParentheses_display]
  exact Text.Utf8.lossy_append hascii front behind

-- a character that is cut short, a parenthesis and a stray byte; and two bytes of one character
theorem token_texts_agree_cutShort :
    (⟨.string, [0xe2, 0x82, 0x28, 0xff]⟩ : Token).display = "string(\uFFFD(\uFFFD)"
      ∧ Utf8.replacement
        ∈ (inParentheses (Token.display ⟨.string, [0xe2, 0x82, 0x28, 0xff]⟩)).toList
      ∧ inParentheses (Token.display ⟨.string, [0xe2, 0x82] ++ [0x28] ++ [0xff]⟩)
        = inParentheses (Token.display ⟨.string, [0xe2, 0x82]⟩) ++ "("
          ++ inParentheses (Token.display ⟨.string, [0xff]⟩)
      ∧ (⟨.comment, [0xc3, 0xa9]⟩ : Token).display = "comment(é)" := by
  obtain ⟨htold, hascii⟩ := token_texts_agree
  refine ⟨by decide +kernel, (htold _).replacement_mem (by decide +kernel),
    hascii .string [0xe2, 0x82] [0xff] 0x28 (by decide), ?_⟩
  exact (htold ⟨.comment, [0xc3, 0xa9]⟩).display_eq "é" (by decide +kernel)

end ByteTokenizer
