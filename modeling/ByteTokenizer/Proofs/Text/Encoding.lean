/-
  ENCODINGS: characters in bytes, and the beginnings of encodings.

  The encoding of a character is one lead byte and then up to three continuation bytes, each with
  six bits of the code.  A reader that has seen a beginning of encodings knows how many bytes are
  missing, what the next one may be and the bits so far.

  `Begun` ties such a state to what the encodings are: the characters whose codes the state leaves
  open are those whose encodings begin with the bytes read.  It holds after a lead byte
  (`begun_of_lead`) and is kept by every byte that the state lets through (`Begun.onward`), until
  the last one makes a character (`Begun.last`); a byte that it does not let through continues no
  encoding (`Begun.refused`).
-/
import ByteTokenizer.Text.Utf8
import Mathlib.Algebra.GroupWithZero.Nat

namespace ByteTokenizer.Text.Utf8

/-! ## Lead and continuation bytes -/

/-- The number of continuation bytes in the encoding of a code. -/
def continuations (code : Nat) : Nat :=
  if code < 0x80 then 0 else if code < 0x800 then 1 else if code < 0x10000 then 2 else 3

/-- The lead byte of a code, as a number. -/
def leadCode (code : Nat) : Nat :=
  if code < 0x80 then code
  else if code < 0x800 then 0xc0 + code / 64
  else if code < 0x10000 then 0xe0 + code / 64 ^ 2
  else 0xf0 + code / 64 ^ 3

/-- The continuation byte that has the last six bits of a code. -/
def continuation (code : Nat) : Byte := UInt8.ofNat (code % 64 + 0x80)

/-- The last bytes of the encoding of a code, where there are as many continuation bytes. -/
def tail : Nat → Nat → List Byte
  | 0, _ => []
  | k + 1, code => continuation (code / 64 ^ k) :: tail k code

theorem leadCode_cases (code : Nat) :
    (code < 0x80 ∧ leadCode code = code ∧ continuations code = 0)
      ∨ (0x80 ≤ code ∧ code < 0x800
        ∧ leadCode code = 0xc0 + code / 64 ∧ continuations code = 1)
      ∨ (0x800 ≤ code ∧ code < 0x10000
        ∧ leadCode code = 0xe0 + code / 64 ^ 2 ∧ continuations code = 2)
      ∨ (0x10000 ≤ code ∧ leadCode code = 0xf0 + code / 64 ^ 3 ∧ continuations code = 3) := by
  rcases Nat.lt_or_ge code 0x80 with hone | hone
  · exact .inl ⟨hone, if_pos hone, if_pos hone⟩
  right
  rw [leadCode, continuations, if_neg (Nat.not_lt.2 hone), if_neg (Nat.not_lt.2 hone)]
  rcases Nat.lt_or_ge code 0x800 with htwo | htwo
  · exact .inl ⟨hone, htwo, if_pos htwo, if_pos htwo⟩
  right
  rw [if_neg (Nat.not_lt.2 htwo), if_neg (Nat.not_lt.2 htwo)]
  rcases Nat.lt_or_ge code 0x10000 with hthree | hthree
  · exact .inl ⟨htwo, hthree, if_pos hthree, if_pos hthree⟩
  · exact .inr ⟨hthree, if_neg (Nat.not_lt.2 hthree), if_neg (Nat.not_lt.2 hthree)⟩

theorem leadCode_lt {code : Nat} (hvalid : code.isValidChar) : leadCode code < 0x100 := by
  have hcases := leadCode_cases code
  unfold Nat.isValidChar at hvalid
  omega

/-- The lead byte and the continuation bytes are the encoding. -/
theorem encodeChar_eq (c : Char) : String.utf8EncodeChar c
    = UInt8.ofNat (leadCode c.toNat) :: tail (continuations c.toNat) c.toNat := by
  have hvalid : c.val.toNat.isValidChar := c.valid
  unfold Nat.isValidChar at hvalid
  show _ = UInt8.ofNat (leadCode c.val.toNat) :: tail (continuations c.val.toNat) c.val.toNat
  rw [String.utf8EncodeChar]
  generalize c.val.toNat = code at hvalid
  rcases leadCode_cases code with ⟨hlt, hlead, hmore⟩ | ⟨hge, hlt, hlead, hmore⟩ |
    ⟨hge, hlt, hlead, hmore⟩ | ⟨hge, hlead, hmore⟩
  · rw [hlead, hmore, if_pos (by omega)]
    rfl
  · have hbits : code / 64 % 0x20 + 0xc0 = 0xc0 + code / 64 := by omega
    rw [hlead, hmore, if_neg (by omega), if_pos (by omega), hbits]
    simp [tail, continuation]
  · have hbits : code / 4096 % 0x10 + 0xe0 = 0xe0 + code / 64 ^ 2 := by omega
    rw [hlead, hmore, if_neg (by omega), if_neg (by omega), if_pos (by omega), hbits]
    simp [tail, continuation]
  · have hbits : code / 262144 % 0x08 + 0xf0 = 0xf0 + code / 64 ^ 3 := by omega
    rw [hlead, hmore, if_neg (by omega), if_neg (by omega), if_neg (by omega), hbits]
    simp [tail, continuation]

theorem toNat_continuation (code : Nat) : (continuation code).toNat = code % 64 + 0x80 := by
  rw [continuation, UInt8.toNat_ofNat']
  omega

theorem continuation_eq {b : Byte} (hlo : 0x80 ≤ b.toNat) (hhi : b.toNat ≤ 0xbf) {code : Nat}
    (hcode : code % 64 = b.toNat - 0x80) : continuation code = b := by
  rw [← UInt8.toNat_inj, toNat_continuation]
  omega

theorem length_tail (k code : Nat) : (tail k code).length = k := by
  induction k with
  | zero => rfl
  | succ k ih => exact congrArg (· + 1) ih

/-- Different characters have different encodings, whatever comes behind them. -/
theorem encodeChar_append_inj {c d : Char} {rest left : List Byte}
    (h : String.utf8EncodeChar c ++ rest = String.utf8EncodeChar d ++ left) :
    c = d ∧ rest = left := by
  have hdecode : ∀ (c : Char) (rest : List Byte),
      (String.utf8EncodeChar c ++ rest).toByteArray.utf8DecodeChar? 0 = some c := by
    intro c rest
    rw [List.toByteArray_append, ← List.utf8Encode_singleton]
    exact ByteArray.utf8DecodeChar?_append_eq_some List.utf8DecodeChar?_utf8Encode_singleton _
  have hsame : some c = some d := by rw [← hdecode c rest, h, hdecode d left]
  obtain rfl := Option.some.inj hsame
  exact ⟨rfl, List.append_cancel_left h⟩

/-- An encoding is one byte long at least. -/
theorem encodeChar_eq_singleton {c : Char} {b : Byte} (hc : String.utf8EncodeChar c <+: [b]) :
    String.utf8EncodeChar c = [b] := by
  rcases List.prefix_cons_iff.1 hc with hnil | ⟨more, heq, hmore⟩
  · exact absurd hnil String.utf8EncodeChar_ne_nil
  · rw [heq, List.prefix_nil.1 hmore]

/-- The character of a valid code has this code. -/
theorem toNat_ofNat {code : Nat} (hvalid : code.isValidChar) : (Char.ofNat code).toNat = code := by
  rw [Char.ofNat, dif_pos hvalid]
  rfl

/-! ## The beginnings of encodings -/

/-- A code that a state leaves open: `more` bytes come behind the next one, which lies in
    `lo .. hi`, and `code` are the bits before it. -/
def LeavesOpen (more : Nat) (lo hi : Byte) (code n : Nat) : Prop :=
  code * 64 + (lo.toNat - 0x80) ≤ n / 64 ^ more ∧ n / 64 ^ more ≤ code * 64 + (hi.toNat - 0x80)

/-- The bytes `part` have been read inside a character, and the state of the reader is right. -/
structure Begun (part : List Byte) (more : Nat) (lo hi : Byte) (code : Nat) : Prop where
  lo_ge : 0x80 ≤ lo.toNat
  lo_le : lo.toNat ≤ hi.toNat
  hi_le : hi.toNat ≤ 0xbf
  ne_nil : part ≠ []
  unfinished : ∀ c : Char, ¬ String.utf8EncodeChar c <+: part
  valid : ∀ n : Nat, LeavesOpen more lo hi code n → n.isValidChar
  encode_eq : ∀ c : Char, LeavesOpen more lo hi code c.toNat →
    String.utf8EncodeChar c = part ++ tail (more + 1) c.toNat
  leavesOpen : ∀ c : Char, part <+: String.utf8EncodeChar c →
    LeavesOpen more lo hi code c.toNat

/-- It is right after a lead byte if it leaves those codes open that have this lead byte. -/
theorem begun_singleton {b : Byte} {more : Nat} {lo hi : Byte} {code : Nat}
    (hlo : 0x80 ≤ lo.toNat) (hle : lo.toNat ≤ hi.toNat) (hhi : hi.toNat ≤ 0xbf)
    (hopen : ∀ n : Nat, LeavesOpen more lo hi code n ↔ n.isValidChar ∧ leadCode n = b.toNat)
    (hmore : ∀ n : Nat, n.isValidChar → leadCode n = b.toNat → continuations n = more + 1) :
    Begun [b] more lo hi code := by
  have hlead : ∀ c : Char, [b] <+: String.utf8EncodeChar c → leadCode c.toNat = b.toNat := by
    intro c hc
    rw [encodeChar_eq] at hc
    rw [(List.cons_prefix_cons.1 hc).1, UInt8.toNat_ofNat']
    exact (Nat.mod_eq_of_lt (leadCode_lt c.valid)).symm
  have hencode : ∀ c : Char, leadCode c.toNat = b.toNat →
      String.utf8EncodeChar c = [b] ++ tail (more + 1) c.toNat := by
    intro c hc
    rw [encodeChar_eq, hc, hmore c.toNat c.valid hc, UInt8.ofNat_toNat]
    rfl
  refine ⟨hlo, hle, hhi, List.cons_ne_nil b [], ?_, ?_, ?_, ?_⟩
  · intro c hc
    have hwhole := encodeChar_eq_singleton hc
    have hlonger := hencode c (hlead c (hwhole ▸ List.prefix_refl _))
    rw [hwhole] at hlonger
    exact nomatch (List.cons.inj hlonger).2
  · intro n hn
    exact ((hopen n).1 hn).1
  · intro c hc
    exact hencode c ((hopen _).1 hc).2
  · intro c hc
    exact (hopen _).2 ⟨c.valid, hlead c hc⟩

/-- The state after a lead byte, for each length of its encodings.  The next byte is bounded where
    the code would be too short for the length, a surrogate, or too great. -/
def StateOfLead (b : Byte) : State → Prop
  | .start => False
  | .inside more lo hi code =>
    (more = 0 ∧ 0xc2 ≤ b.toNat ∧ b.toNat < 0xe0 ∧ code + 0xc0 = b.toNat
        ∧ lo.toNat = 0x80 ∧ hi.toNat = 0xbf)
      ∨ (more = 1 ∧ 0xe0 ≤ b.toNat ∧ b.toNat < 0xf0 ∧ code + 0xe0 = b.toNat
        ∧ lo.toNat = (if b.toNat = 0xe0 then 0xa0 else 0x80)
        ∧ hi.toNat = (if b.toNat = 0xed then 0x9f else 0xbf))
      ∨ (more = 2 ∧ 0xf0 ≤ b.toNat ∧ b.toNat < 0xf5 ∧ code + 0xf0 = b.toNat
        ∧ lo.toNat = (if b.toNat = 0xf0 then 0x90 else 0x80)
        ∧ hi.toNat = (if b.toNat = 0xf4 then 0x8f else 0xbf))

instance (b : Byte) : DecidablePred (StateOfLead b)
  | .start => inferInstanceAs (Decidable False)
  | .inside .. => inferInstanceAs (Decidable (_ ∨ _ ∨ _))

/-- The table of first bytes. -/
theorem lead_eq (b : Byte) :
    (b.toNat < 0x80 ∧ lead b = ([some (Char.ofNat b.toNat)], .start))
      ∨ ((0x80 ≤ b.toNat ∧ b.toNat < 0xc2 ∨ 0xf5 ≤ b.toNat) ∧ lead b = ([none], .start))
      ∨ ((lead b).1 = [] ∧ StateOfLead b (lead b).2) := by
  revert b
  exact Byte.forall_of_all (by decide +kernel)

theorem begun_of_lead {b : Byte} {more : Nat} {lo hi : Byte} {code : Nat}
    (h : StateOfLead b (.inside more lo hi code)) : Begun [b] more lo hi code := by
  have hbounds : 0x80 ≤ lo.toNat ∧ lo.toNat ≤ hi.toNat ∧ hi.toNat ≤ 0xbf := by
    rcases h with ⟨-, h⟩ | ⟨-, h⟩ | ⟨-, h⟩
    · omega
    · split at h <;> split at h <;> omega
    · split at h <;> split at h <;> omega
  refine begun_singleton hbounds.1 hbounds.2.1 hbounds.2.2 (fun n => ?_) (fun n hvalid hcode => ?_)
  · have hcases := leadCode_cases n
    unfold LeavesOpen Nat.isValidChar
    rcases h with ⟨rfl, h⟩ | ⟨rfl, h⟩ | ⟨rfl, h⟩
    · omega
    · split at h <;> split at h <;> omega
    · split at h <;> split at h <;> omega
  · have hcases := leadCode_cases n
    unfold Nat.isValidChar at hvalid
    rcases h with ⟨rfl, h⟩ | ⟨rfl, h⟩ | ⟨rfl, h⟩ <;> omega

/-- A first byte is a character, or begins none, or begins those that the state leaves open. -/
theorem lead_cases (b : Byte) :
    (∃ c, String.utf8EncodeChar c = [b] ∧ lead b = ([some c], .start))
      ∨ ((∀ c, ¬ [b] <+: String.utf8EncodeChar c) ∧ lead b = ([none], .start))
      ∨ ∃ more lo hi code, Begun [b] more lo hi code
        ∧ lead b = ([], .inside more lo hi code) := by
  rcases lead_eq b with ⟨hb, hlead⟩ | ⟨hb, hlead⟩ | ⟨hnothing, hstate⟩
  · refine .inl ⟨_, ?_, hlead⟩
    have hcode : (Char.ofNat b.toNat).toNat = b.toNat :=
      toNat_ofNat (.inl (Nat.lt_trans hb (by decide)))
    have hshort : leadCode b.toNat = b.toNat ∧ continuations b.toNat = 0 := ⟨if_pos hb, if_pos hb⟩
    rw [encodeChar_eq, hcode, hshort.1, hshort.2, UInt8.ofNat_toNat]
    rfl
  · refine .inr (.inl ⟨fun c hc => ?_, hlead⟩)
    rw [encodeChar_eq] at hc
    have hcode := congrArg UInt8.toNat (List.cons_prefix_cons.1 hc).1
    rw [UInt8.toNat_ofNat'] at hcode
    have hlt := leadCode_lt c.valid
    have hvalid : c.toNat.isValidChar := c.valid
    have hcases := leadCode_cases c.toNat
    unfold Nat.isValidChar at hvalid
    omega
  · right; right
    rcases hlead : lead b with ⟨items, state⟩
    rw [hlead] at hnothing hstate
    obtain rfl : items = [] := hnothing
    cases state with
    | start => exact hstate.elim
    | inside more lo hi code => exact ⟨more, lo, hi, code, begun_of_lead hstate, rfl⟩

/-! ## One byte further -/

namespace Begun

variable {part : List Byte} {more : Nat} {lo hi : Byte} {code : Nat}

theorem encode_ofNat (h : Begun part more lo hi code) {n : Nat}
    (hopen : LeavesOpen more lo hi code n) :
    String.utf8EncodeChar (Char.ofNat n) = part ++ tail (more + 1) n := by
  have hcode := toNat_ofNat (h.valid n hopen)
  rw [h.encode_eq _ (hcode.symm ▸ hopen), hcode]

/-- There are characters to which the beginning may lead. -/
theorem exists_char (h : Begun part more lo hi code) :
    ∃ c : Char, part <+: String.utf8EncodeChar c := by
  have hopen : LeavesOpen more lo hi code ((code * 64 + (lo.toNat - 0x80)) * 64 ^ more) := by
    have hle := h.lo_le
    rw [LeavesOpen, Nat.mul_div_cancel _ (Nat.pow_pos (by decide))]
    omega
  exact ⟨_, _, (h.encode_ofNat hopen).symm⟩

/-- The next byte of such a character is let through, and has the next six bits of its code. -/
theorem next_eq (h : Begun part more lo hi code) {b : Byte} {c : Char}
    (hc : part ++ [b] <+: String.utf8EncodeChar c) :
    lo.toNat ≤ b.toNat ∧ b.toNat ≤ hi.toNat
      ∧ c.toNat / 64 ^ more = code * 64 + (b.toNat - 0x80) := by
  have hopen := h.leavesOpen c ((List.prefix_append part [b]).trans hc)
  rw [h.encode_eq c hopen, List.prefix_append_right_inj] at hc
  have hb := congrArg UInt8.toNat (List.cons_prefix_cons.1 hc).1
  rw [toNat_continuation] at hb
  obtain ⟨hlower, hupper⟩ := hopen
  have hlo := h.lo_ge
  have hle := h.lo_le
  have hhi := h.hi_le
  omega

/-- A byte that is not let through continues no encoding. -/
theorem refused (h : Begun part more lo hi code) {b : Byte} (hb : ¬ (lo ≤ b ∧ b ≤ hi)) (c : Char) :
    ¬ part ++ [b] <+: String.utf8EncodeChar c := by
  intro hc
  obtain ⟨hlo, hhi, -⟩ := h.next_eq hc
  exact hb ⟨UInt8.le_iff_toNat_le.2 hlo, UInt8.le_iff_toNat_le.2 hhi⟩

/-- The last byte makes a character of what was read. -/
theorem last (h : Begun part 0 lo hi code) {b : Byte} (hb : lo ≤ b ∧ b ≤ hi) :
    String.utf8EncodeChar (Char.ofNat (code * 64 + b.toNat % 64)) = part ++ [b] := by
  rw [UInt8.le_iff_toNat_le, UInt8.le_iff_toNat_le] at hb
  have hlo := h.lo_ge
  have hhi := h.hi_le
  have hopen : LeavesOpen 0 lo hi code (code * 64 + b.toNat % 64) := by
    rw [LeavesOpen, Nat.pow_zero, Nat.div_one]
    omega
  have hlast : continuation ((code * 64 + b.toNat % 64) / 64 ^ 0) = b :=
    continuation_eq (by omega) (by omega) (by omega)
  rw [h.encode_ofNat hopen, tail, hlast]
  rfl

/-- Any other byte that is let through goes on. -/
theorem onward (h : Begun part (more + 1) lo hi code) {b : Byte} (hb : lo ≤ b ∧ b ≤ hi) :
    Begun (part ++ [b]) more 0x80 0xbf (code * 64 + b.toNat % 64) := by
  have hbounds := hb
  rw [UInt8.le_iff_toNat_le, UInt8.le_iff_toNat_le] at hbounds
  have hlo := h.lo_ge
  have hhi := h.hi_le
  have hsix : ∀ n : Nat, n / 64 ^ (more + 1) = n / 64 ^ more / 64 := fun n => by
    rw [Nat.pow_succ, Nat.div_div_eq_div_mul]
  -- the codes that are still open are those with the six bits of the byte
  have hopen : ∀ n : Nat, LeavesOpen more 0x80 0xbf (code * 64 + b.toNat % 64) n →
      n / 64 ^ (more + 1) = code * 64 + b.toNat % 64 ∧ LeavesOpen (more + 1) lo hi code n := by
    rintro n ⟨hlower, hupper⟩
    simp only [UInt8.reduceToNat] at hlower hupper
    rw [LeavesOpen, hsix]
    omega
  refine ⟨by decide, by decide, by decide, by simp, ?_, ?_, ?_, ?_⟩
  · intro c hc
    rcases List.prefix_concat_iff.1 hc with hwhole | hshort
    · have hbegun := h.leavesOpen c (hwhole ▸ List.prefix_append part [b])
      have hlength := congrArg List.length (hwhole.symm.trans (h.encode_eq c hbegun))
      simp [length_tail] at hlength
    · exact h.unfinished c hshort
  · intro n hn
    exact h.valid n (hopen n hn).2
  · intro c hc
    obtain ⟨hcode, hbegun⟩ := hopen c.toNat hc
    have hnext : continuation (c.toNat / 64 ^ (more + 1)) = b :=
      continuation_eq (by omega) (by omega) (by omega)
    rw [h.encode_eq c hbegun, tail, hnext, List.append_assoc]
    rfl
  · intro c hc
    obtain ⟨-, -, hcode⟩ := h.next_eq hc
    rw [hsix] at hcode
    simp only [LeavesOpen, UInt8.reduceToNat]
    omega

end Begun

end ByteTokenizer.Text.Utf8
