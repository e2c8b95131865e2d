/-
  LINES OF OUTPUT: texts that stay on their line, and lines that can be told apart.

  A text stays on its line if all its characters show (`IsLine`): none of them is a line feed or
  anything else that ends a line.  Numerals do, in any base up to 16, and texts that are put
  together from such texts.

  Lines are written one after the other, each ended by a line feed.  Whoever reads them cuts the
  text at its line feeds, so what has been written can be found again (`ofLines_inj`).
-/
import ByteTokenizer.Text.Printable

namespace ByteTokenizer.Text

/-! ## Numerals -/

/-- The digits of a numeral are digits of base 16. -/
theorem exists_digit_of_mem {base n : Nat} (hbase : 1 < base) (hle : base ≤ 16) {c : Char}
    (hc : c ∈ Nat.toDigits base n) : ∃ d, d < 16 ∧ c = Nat.digitChar d := by
  induction n using Nat.strongRecOn with
  | ind n ih =>
    rw [Nat.toDigits_eq_if hbase] at hc
    split at hc
    · next hlt => exact ⟨n, by omega, List.mem_singleton.1 hc⟩
    · next hge =>
      rcases List.mem_append.1 hc with hfront | hlast
      · exact ih (n / base) (Nat.div_lt_self (by omega) hbase) hfront
      · have hmod := Nat.mod_lt n (Nat.lt_trans Nat.zero_lt_one hbase)
        exact ⟨n % base, by omega, List.mem_singleton.1 hlast⟩

/-- Numerals of one base are different for different numbers. -/
theorem toDigits_inj {base m n : Nat} (hbase : 1 < base) (hle : base ≤ 16)
    (h : Nat.toDigits base m = Nat.toDigits base n) : m = n := by
  have hdigit : ∀ d < 16, ∀ e < 16, Nat.digitChar d = Nat.digitChar e → d = e := by decide
  -- a numeral of more than one digit has a numeral in front of its last digit
  have hlonger : ∀ (front : Nat) (c d : Char), Nat.toDigits base front ++ [c] ≠ [d] := by
    intro front c d heq
    have hlength := congrArg List.length heq
    have hpos : 0 < (Nat.toDigits base front).length := Nat.length_toDigits_pos
    rw [List.length_append, List.length_singleton, List.length_singleton] at hlength
    omega
  induction m using Nat.strongRecOn generalizing n with
  | ind m ih =>
    rcases Nat.lt_or_ge m base with hm | hm
    · rw [Nat.toDigits_of_lt_base hm] at h
      rcases Nat.lt_or_ge n base with hn | hn
      · rw [Nat.toDigits_of_lt_base hn] at h
        exact hdigit m (by omega) n (by omega) (List.cons.inj h).1
      · rw [Nat.toDigits_of_base_le hbase hn] at h
        exact absurd h.symm (hlonger _ _ _)
    · rw [Nat.toDigits_of_base_le hbase hm] at h
      rcases Nat.lt_or_ge n base with hn | hn
      · rw [Nat.toDigits_of_lt_base hn] at h
        exact absurd h (hlonger _ _ _)
      · rw [Nat.toDigits_of_base_le hbase hn] at h
        obtain ⟨hfront, hlast⟩ := List.append_inj' h rfl
        have hdiv := ih (m / base) (Nat.div_lt_self (by omega) hbase) hfront
        have hm := Nat.mod_lt m (Nat.lt_trans Nat.zero_lt_one hbase)
        have hn := Nat.mod_lt n (Nat.lt_trans Nat.zero_lt_one hbase)
        have hmod := hdigit (m % base) (by omega) (n % base) (by omega) (List.cons.inj hlast).1
        rw [← Nat.div_add_mod m base, ← Nat.div_add_mod n base, hdiv, hmod]

/-! ## Texts that stay on their line -/

/-- All characters of the text show. -/
def IsLine (text : String) : Prop := ∀ c ∈ text.toList, isPrinted c = true

instance (text : String) : Decidable (IsLine text) :=
  decidable_of_iff (text.toList.all isPrinted = true) List.all_eq_true

theorem IsLine.append {text text' : String} (h : IsLine text) (h' : IsLine text') :
    IsLine (text ++ text') := by
  intro c hc
  rw [String.toList_append] at hc
  rcases List.mem_append.1 hc with hfront | hbehind
  · exact h c hfront
  · exact h' c hbehind

/-- Such a text has no line feed. -/
theorem IsLine.lineFeed_not_mem {text : String} (h : IsLine text) : '\n' ∉ text.toList :=
  fun hmem => absurd (h '\n' hmem) (by decide)

theorem isPrinted_digit {d : Nat} (hd : d < 16) : isPrinted (Nat.digitChar d) = true := by
  revert d
  decide

theorem isLine_toString (n : Nat) : IsLine (toString n) := by
  intro c hc
  rw [Nat.toString_eq_ofList_toDigits, String.toList_ofList] at hc
  obtain ⟨d, hd, rfl⟩ := exists_digit_of_mem (by decide) (by decide) hc
  exact isPrinted_digit hd

/-! ## Lines one after the other -/

/-- The lines, each ended by a line feed. -/
def ofLines (lines : List String) : String := String.join (lines.map (· ++ "\n"))

theorem ofLines_append (lines lines' : List String) :
    ofLines (lines ++ lines') = ofLines lines ++ ofLines lines' := by
  rw [ofLines, List.map_append, String.join_append]
  rfl

/-- Cut at its line feeds, the text gives the lines and nothing behind the last one. -/
theorem splitOn_ofLines {lines : List String} (hlines : ∀ line ∈ lines, IsLine line) :
    (ofLines lines).toList.splitOn '\n' = lines.map String.toList ++ [[]] := by
  induction lines with
  | nil => rfl
  | cons line lines ih =>
    obtain ⟨hline, hmore⟩ := List.forall_mem_cons.1 hlines
    have hfront : (ofLines (line :: lines)).toList
        = line.toList ++ '\n' :: (ofLines lines).toList := by
      simp [ofLines, String.toList_join]
    rw [hfront, List.splitOn_append_cons_self_of_not_mem hline.lineFeed_not_mem, ih hmore]
    rfl

/-- Lines can be told apart. -/
theorem ofLines_inj {lines lines' : List String} (hlines : ∀ line ∈ lines, IsLine line)
    (hlines' : ∀ line ∈ lines', IsLine line) (h : ofLines lines = ofLines lines') :
    lines = lines' := by
  have hcut := splitOn_ofLines hlines
  rw [h, splitOn_ofLines hlines'] at hcut
  have hsame := List.append_cancel_right hcut
  exact ((List.map_inj_right fun _ _ => String.toList_inj.1).1 hsame).symm

end ByteTokenizer.Text
