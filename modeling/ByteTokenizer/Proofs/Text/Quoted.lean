/-
  QUOTED TEXT READ BACK: nothing in the quotes ends the line, and the text can be found again.

  A character is spelled in one of three ways (`Spelling`): as itself, as a backslash and one
  character from a short list, or as a backslash and its code between braces.  The first
  character tells the first way from the others, the second the second from the third, and the
  closing brace ends the code.  So a reader knows where a spelling ends without a look at what
  follows (`Spelling.append_inj`), and from one character to the next the whole text can be read
  back (`quoted_inj`).

  Whatever the way, only characters that show are written (`isLine_quoted`).
-/
import ByteTokenizer.Proofs.Text.Lines
import ByteTokenizer.Text.Quoted
import Mathlib.Tactic.SplitIfs

namespace ByteTokenizer.Text

/-! ## One character -/

/-- The characters that are written as a backslash and one character, and that character. -/
def shortSpellings : List (Char × Char) :=
  [('\x00', '0'), ('\t', 't'), ('\n', 'n'), ('\r', 'r'), ('"', '"'), ('\\', '\\')]

/-- The ways in which a character is spelled inside the quotes. -/
inductive Spelling (c : Char) : List Char → Prop where
  | plain (hprinted : isPrinted c = true) (hquote : c ≠ '"') (hbackslash : c ≠ '\\') :
      Spelling c [c]
  | short {e : Char} (hlisted : (c, e) ∈ shortSpellings) : Spelling c ['\\', e]
  | code : Spelling c (['\\', 'u', '\x7b'] ++ Nat.toDigits 16 c.toNat ++ ['\x7d'])

theorem spelling_quotedChar (c : Char) : Spelling c (quotedChar c) := by
  unfold quotedChar
  split_ifs with hnul htab hfeed hreturn hquote hbackslash hprinted
  · exact .short (by rw [hnul]; decide)
  · exact .short (by rw [htab]; decide)
  · exact .short (by rw [hfeed]; decide)
  · exact .short (by rw [hreturn]; decide)
  · exact .short (by rw [hquote]; decide)
  · exact .short (by rw [hbackslash]; decide)
  · exact .plain hprinted hquote hbackslash
  · exact .code

/-- The closing brace is no digit. -/
theorem brace_not_mem_toDigits (n : Nat) : '\x7d' ∉ Nat.toDigits 16 n := by
  intro hmem
  obtain ⟨d, hd, hbrace⟩ := exists_digit_of_mem (by decide) (by decide) hmem
  have hdigit : ∀ d < 16, '\x7d' ≠ Nat.digitChar d := by decide
  exact hdigit d hd hbrace

/-- Two texts that are alike are alike in front of their first mark and behind it. -/
theorem append_cons_inj_of_not_mem {mark : Char} {front front' rest rest' : List Char}
    (hfront : mark ∉ front) (hfront' : mark ∉ front')
    (h : front ++ mark :: rest = front' ++ mark :: rest') : front = front' ∧ rest = rest' := by
  have hcut := congrArg (List.splitOn mark) h
  rw [List.splitOn_append_cons_self_of_not_mem hfront,
    List.splitOn_append_cons_self_of_not_mem hfront'] at hcut
  obtain rfl := (List.cons.inj hcut).1
  exact ⟨rfl, (List.cons.inj (List.append_cancel_left h)).2⟩

/-- A spelling ends where it must, whatever follows: its text gives the character and the rest. -/
theorem Spelling.append_inj {c d : Char} {front front' rest rest' : List Char}
    (hc : Spelling c front) (hd : Spelling d front') (h : front ++ rest = front' ++ rest') :
    c = d ∧ rest = rest' := by
  have hsame : ∀ p ∈ shortSpellings, ∀ q ∈ shortSpellings, p.2 = q.2 → p.1 = q.1 := by decide
  have hcode : ∀ p ∈ shortSpellings, p.2 ≠ 'u' := by decide
  cases hc with
  | plain _ _ hbackslash =>
    cases hd with
    | plain => exact List.cons.inj h
    | short => exact absurd (List.cons.inj h).1 hbackslash
    | code => exact absurd (List.cons.inj h).1 hbackslash
  | @short e hlisted =>
    cases hd with
    | plain _ _ hbackslash => exact absurd (List.cons.inj h).1.symm hbackslash
    | @short e' hlisted' =>
      obtain ⟨hescape, hrest⟩ := List.cons.inj (List.cons.inj h).2
      exact ⟨hsame (c, e) hlisted (d, e') hlisted' hescape, hrest⟩
    | code => exact absurd (List.cons.inj (List.cons.inj h).2).1 (hcode (c, e) hlisted)
  | code =>
    cases hd with
    | plain _ _ hbackslash => exact absurd (List.cons.inj h).1.symm hbackslash
    | @short e' hlisted' =>
      exact absurd (List.cons.inj (List.cons.inj h).2).1.symm (hcode (d, e') hlisted')
    | code =>
      rw [List.append_assoc, List.append_assoc, List.append_assoc, List.append_assoc] at h
      obtain ⟨hdigits, hrest⟩ := append_cons_inj_of_not_mem (brace_not_mem_toDigits _)
        (brace_not_mem_toDigits _) (List.append_cancel_left h)
      exact ⟨Char.toNat_inj.1 (toDigits_inj (by decide) (by decide) hdigits), hrest⟩

/-- All that a spelling writes shows. -/
theorem Spelling.isPrinted_of_mem {c : Char} {front : List Char} (hc : Spelling c front) :
    ∀ x ∈ front, isPrinted x = true := by
  have hshort : ∀ p ∈ shortSpellings, isPrinted p.2 = true := List.all_eq_true.1 (by decide)
  have hopening : ∀ x ∈ ['\\', 'u', '\x7b'], isPrinted x = true :=
    List.all_eq_true.1 (by decide)
  intro x hx
  cases hc with
  | plain hprinted =>
    obtain rfl := List.mem_singleton.1 hx
    exact hprinted
  | @short e hlisted =>
    rcases List.mem_cons.1 hx with rfl | he
    · exact hopening '\\' (by decide)
    · obtain rfl := List.mem_singleton.1 he
      exact hshort (c, x) hlisted
  | code =>
    rcases List.mem_append.1 hx with hfront | hclosing
    · rcases List.mem_append.1 hfront with hmark | hdigit
      · exact hopening x hmark
      · obtain ⟨d, hd, rfl⟩ := exists_digit_of_mem (by decide) (by decide) hdigit
        exact isPrinted_digit hd
    · obtain rfl := List.mem_singleton.1 hclosing
      decide

/-! ## The whole text -/

/-- The spelling of a text gives the text. -/
theorem flatMap_quotedChar_inj {chars chars' : List Char}
    (h : chars.flatMap quotedChar = chars'.flatMap quotedChar) : chars = chars' := by
  have hne : ∀ c, quotedChar c ≠ [] := by
    intro c hnil
    have hspelling := spelling_quotedChar c
    rw [hnil] at hspelling
    exact nomatch hspelling
  induction chars generalizing chars' with
  | nil =>
    cases chars' with
    | nil => rfl
    | cons d chars' =>
      rw [List.flatMap_nil, List.flatMap_cons] at h
      exact absurd (List.append_eq_nil_iff.1 h.symm).1 (hne d)
  | cons c chars ih =>
    cases chars' with
    | nil =>
      rw [List.flatMap_nil, List.flatMap_cons] at h
      exact absurd (List.append_eq_nil_iff.1 h).1 (hne c)
    | cons d chars' =>
      rw [List.flatMap_cons, List.flatMap_cons] at h
      obtain ⟨rfl, hrest⟩ := (spelling_quotedChar c).append_inj (spelling_quotedChar d) h
      rw [ih hrest]

/-- **A quoted text can be read back.** -/
theorem quoted_inj {text text' : String} (h : quoted text = quoted text') : text = text' := by
  have hchars := String.ofList_inj.1 h
  have hinside := List.append_cancel_right (List.cons.inj hchars).2
  exact String.toList_inj.1 (flatMap_quotedChar_inj hinside)

/-- A quoted text stays on its line. -/
theorem isLine_quoted (text : String) : IsLine (quoted text) := by
  have hquote : isPrinted '"' = true := by decide
  intro x hx
  rw [quoted, String.toList_ofList] at hx
  rcases List.mem_append.1 hx with hfront | hlast
  · rcases List.mem_cons.1 hfront with rfl | hinside
    · exact hquote
    · obtain ⟨c, -, hc⟩ := List.mem_flatMap.1 hinside
      exact (spelling_quotedChar c).isPrinted_of_mem x hc
  · obtain rfl := List.mem_singleton.1 hlast
    exact hquote

end ByteTokenizer.Text
