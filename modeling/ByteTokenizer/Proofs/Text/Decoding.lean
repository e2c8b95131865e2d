/-
  DECODING: what bytes say as text, and what does not say anything.

  Bytes are read as characters and malformed parts, one after the other (`Reads`).  A character is
  read where its encoding stands.  Where none stands, a part is malformed: it is the longest
  stretch with which some encoding begins, or one byte if none begins with that (`Malformed`).

  Every sequence of bytes has one reading only, and the reader gives it (`reads_iff`).  It finds
  the next character or malformed part in one go (`exists_part`); what it does inside a character
  is followed with `Begun`.  Two readings agree because neither a character nor a malformed part
  can stand where the other one stands (`Malformed.no_char`, `Malformed.length_le`).

  So a text is read from its encoding and from no other bytes (`strict?_eq_some_iff`), and a byte
  of ASCII is always read as itself (`lossy_append`), since it belongs inside no character.
-/
import ByteTokenizer.Proofs.Text.Ascii
import ByteTokenizer.Proofs.Text.Encoding

namespace ByteTokenizer.Text.Utf8

/-! ## Characters and malformed parts -/

/-- A malformed part in front of the bytes `rest`: no character stands there, and nothing longer
    is the beginning of one. -/
structure Malformed (part rest : List Byte) : Prop where
  ne_nil : part ≠ []
  begins : part.length = 1 ∨ ∃ c : Char, part <+: String.utf8EncodeChar c
  no_char : ∀ c : Char, ¬ String.utf8EncodeChar c <+: part ++ rest
  longest : ∀ longer, longer <+: part ++ rest →
    (∃ c : Char, longer <+: String.utf8EncodeChar c) → longer.length ≤ part.length

/-- How bytes are read, with `none` for a malformed part. -/
inductive Reads : List Byte → List (Option Char) → Prop where
  | nil : Reads [] []
  | char (c : Char) {rest : List Byte} {items : List (Option Char)} (hrest : Reads rest items) :
      Reads (String.utf8EncodeChar c ++ rest) (some c :: items)
  | malformed {part rest : List Byte} {items : List (Option Char)} (hpart : Malformed part rest)
      (hrest : Reads rest items) : Reads (part ++ rest) (none :: items)

/-- A part that no encoding continues with the byte behind it is malformed. -/
theorem malformed_of_stop {part rest : List Byte} (hne : part ≠ [])
    (hbegins : part.length = 1 ∨ ∃ c : Char, part <+: String.utf8EncodeChar c)
    (hunfinished : ∀ c : Char, ¬ String.utf8EncodeChar c <+: part)
    (hstop : ∀ b ∈ rest.head?, ∀ c : Char, ¬ part ++ [b] <+: String.utf8EncodeChar c) :
    Malformed part rest := by
  have hlongest : ∀ longer, longer <+: part ++ rest →
      (∃ c : Char, longer <+: String.utf8EncodeChar c) → longer.length ≤ part.length := by
    rintro longer hlonger ⟨c, hc⟩
    rcases Nat.lt_or_ge part.length longer.length with hlt | hle
    · cases rest with
      | nil =>
        have hle := hlonger.length_le
        rw [List.append_nil] at hle
        exact hle
      | cons b rest =>
        -- what is longer has the next byte too
        have hnext : part ++ [b] <+: part ++ b :: rest :=
          (List.prefix_append_right_inj part).2 (List.cons_prefix_cons.2 ⟨rfl, List.nil_prefix⟩)
        have hbeyond := List.prefix_of_prefix_length_le hnext hlonger
          (by rw [List.length_append]; exact hlt)
        exact absurd (hbeyond.trans hc) (hstop b rfl c)
    · exact hle
  refine ⟨hne, hbegins, fun c hc => ?_, hlongest⟩
  have hle := hlongest _ hc ⟨c, List.prefix_refl _⟩
  exact hunfinished c (List.prefix_of_prefix_length_le hc (List.prefix_append part rest) hle)

/-- Of two malformed parts at the same place neither is longer. -/
theorem Malformed.length_le {part part' rest rest' : List Byte} (h : Malformed part rest)
    (h' : Malformed part' rest') (heq : part ++ rest = part' ++ rest') :
    part.length ≤ part'.length := by
  rcases h.begins with hone | hchar
  · rw [hone]
    exact List.length_pos_iff.2 h'.ne_nil
  · exact h'.longest part (heq ▸ List.prefix_append part rest) hchar

/-! ## The reader -/

section Step

variable {more : Nat} {lo hi : Byte} {code : Nat} {b : Byte}

theorem step_last (hb : lo ≤ b ∧ b ≤ hi) : step (.inside 0 lo hi code) b
    = ([some (Char.ofNat (code * 64 + b.toNat % 64))], .start) :=
  if_pos hb

theorem step_onward (hb : lo ≤ b ∧ b ≤ hi) : step (.inside (more + 1) lo hi code) b
    = ([], .inside more 0x80 0xbf (code * 64 + b.toNat % 64)) :=
  if_pos hb

/-- What was begun is malformed, and the byte is read as a first one. -/
theorem step_refused (hb : ¬ (lo ≤ b ∧ b ≤ hi)) : step (.inside more lo hi code) b
    = (none :: (lead b).1, (lead b).2) :=
  if_neg hb

end Step

/-- Inside a character, the reader comes to its end, or stops at the longest beginning. -/
theorem Begun.decodeFrom {part : List Byte} {more : Nat} {lo hi : Byte} {code : Nat}
    (h : Begun part more lo hi code) (ahead : List Byte) :
    (∃ c behind rest, ahead = behind ++ rest ∧ String.utf8EncodeChar c = part ++ behind
        ∧ decodeFrom (.inside more lo hi code) ahead = some c :: decode rest)
      ∨ ∃ behind rest, ahead = behind ++ rest ∧ Malformed (part ++ behind) rest
        ∧ decodeFrom (.inside more lo hi code) ahead = none :: decode rest := by
  induction ahead generalizing part more lo hi code with
  | nil =>
    refine .inr ⟨[], [], rfl, ?_, rfl⟩
    rw [List.append_nil]
    exact malformed_of_stop h.ne_nil (.inr h.exists_char) h.unfinished (fun b hb => nomatch hb)
  | cons b ahead ih =>
    by_cases hb : lo ≤ b ∧ b ≤ hi
    · cases more with
      | zero =>
        refine .inl ⟨_, [b], ahead, rfl, h.last hb, ?_⟩
        rw [Utf8.decodeFrom, step_last hb]
        rfl
      | succ more =>
        rw [Utf8.decodeFrom, step_onward hb, List.nil_append]
        rcases ih (h.onward hb) with ⟨c, behind, rest, rfl, hc, hdecode⟩ |
          ⟨behind, rest, rfl, hpart, hdecode⟩
        · rw [List.append_assoc] at hc
          exact .inl ⟨c, b :: behind, rest, rfl, hc, hdecode⟩
        · rw [List.append_assoc] at hpart
          exact .inr ⟨b :: behind, rest, rfl, hpart, hdecode⟩
    · refine .inr ⟨[], b :: ahead, rfl, ?_, ?_⟩
      · rw [List.append_nil]
        refine malformed_of_stop h.ne_nil (.inr h.exists_char) h.unfinished fun b' hb' => ?_
        obtain rfl : b = b' := Option.some.inj hb'
        exact h.refused hb
      · rw [Utf8.decodeFrom, step_refused hb]
        rfl

/-- Between characters, the reader finds the next one or a malformed part. -/
theorem exists_part {bytes : List Byte} (hne : bytes ≠ []) :
    (∃ c rest, bytes = String.utf8EncodeChar c ++ rest ∧ decode bytes = some c :: decode rest)
      ∨ ∃ part rest, bytes = part ++ rest ∧ Malformed part rest
        ∧ decode bytes = none :: decode rest := by
  obtain ⟨b, ahead, rfl⟩ := List.exists_cons_of_ne_nil hne
  have hdecode : decode (b :: ahead) = (lead b).1 ++ decodeFrom (lead b).2 ahead := rfl
  rcases lead_cases b with ⟨c, hc, hlead⟩ | ⟨hnone, hlead⟩ | ⟨more, lo, hi, code, hbegun, hlead⟩
  · refine .inl ⟨c, ahead, by rw [hc]; rfl, ?_⟩
    rw [hdecode, hlead]
    rfl
  · refine .inr ⟨[b], ahead, rfl, ?_, ?_⟩
    · refine malformed_of_stop (List.cons_ne_nil b []) (.inl rfl) (fun c hc => ?_)
        fun b' _ c hc => hnone c ((List.prefix_append [b] [b']).trans hc)
      exact hnone c (encodeChar_eq_singleton hc ▸ List.prefix_refl _)
    · rw [hdecode, hlead]
      rfl
  · rw [hdecode, hlead]
    rcases hbegun.decodeFrom ahead with ⟨c, behind, rest, rfl, hc, hinside⟩ |
      ⟨behind, rest, rfl, hpart, hinside⟩
    · exact .inl ⟨c, rest, by rw [hc]; rfl, hinside⟩
    · exact .inr ⟨[b] ++ behind, rest, rfl, hpart, hinside⟩

theorem reads_decode (bytes : List Byte) : Reads bytes (decode bytes) := by
  induction hlength : bytes.length using Nat.strongRecOn generalizing bytes with
  | ind length ih =>
    by_cases hne : bytes = []
    · rw [hne]
      exact .nil
    · rcases exists_part hne with ⟨c, rest, rfl, hdecode⟩ | ⟨part, rest, rfl, hpart, hdecode⟩
      · have hpos := List.length_pos_iff.2 (String.utf8EncodeChar_ne_nil (c := c))
        rw [List.length_append] at hlength
        rw [hdecode]
        exact .char c (ih rest.length (by omega) rest rfl)
      · have hpos := List.length_pos_iff.2 hpart.ne_nil
        rw [List.length_append] at hlength
        rw [hdecode]
        exact .malformed hpart (ih rest.length (by omega) rest rfl)

/-- There is one reading of any bytes, which the reader gives. -/
theorem reads_iff {bytes : List Byte} {items : List (Option Char)} :
    Reads bytes items ↔ decode bytes = items := by
  constructor
  · intro h
    induction h with
    | nil => rfl
    | @char c rest items hrest ih =>
      have hne : String.utf8EncodeChar c ++ rest ≠ [] := by simp
      rcases exists_part hne with ⟨d, left, heq, hdecode⟩ | ⟨part, left, heq, hpart, -⟩
      · obtain ⟨rfl, rfl⟩ := encodeChar_append_inj heq
        rw [hdecode, ih]
      · exact absurd (heq ▸ List.prefix_append _ rest) (hpart.no_char c)
    | @malformed part rest items hpart hrest ih =>
      have hne : part ++ rest ≠ [] := by simp [hpart.ne_nil]
      rcases exists_part hne with ⟨d, left, heq, -⟩ | ⟨part', left, heq, hpart', hdecode⟩
      · exact absurd (heq ▸ List.prefix_append _ left) (hpart.no_char d)
      · have hlength := Nat.le_antisymm (hpart.length_le hpart' heq)
          (hpart'.length_le hpart heq.symm)
        obtain ⟨rfl, rfl⟩ := List.append_inj heq hlength
        rw [hdecode, ih]
  · rintro rfl
    exact reads_decode bytes

/-! ## Texts -/

/-- What is read as characters only is the encoding of these characters. -/
theorem Reads.bytes_eq {bytes : List Byte} {items : List (Option Char)} (h : Reads bytes items)
    (hall : ∀ item ∈ items, item.isSome = true) :
    bytes = (items.map (·.getD replacement)).flatMap String.utf8EncodeChar := by
  induction h with
  | nil => rfl
  | char c hrest ih =>
    rw [ih (List.forall_mem_cons.1 hall).2]
    rfl
  | malformed hpart hrest ih => exact nomatch (List.forall_mem_cons.1 hall).1

/-- The encoding of a text is read as its characters. -/
theorem decode_encode (text : String) : decode (encode text) = text.toList.map some := by
  rw [← reads_iff, encode]
  induction text.toList with
  | nil => exact .nil
  | cons c chars ih => exact .char c ih

/-- Bytes that are text are read as characters only, and shown as that text. -/
theorem of_strict?_eq_some {bytes : List Byte} {text : String} (h : strict? bytes = some text) :
    (∀ item ∈ decode bytes, item.isSome = true) ∧ lossy bytes = text := by
  unfold strict? at h
  split at h
  · next hall => exact ⟨List.all_eq_true.1 hall, Option.some.inj h⟩
  · exact nomatch h

/-- A text is read from its encoding, and from no other bytes. -/
theorem strict?_eq_some_iff {bytes : List Byte} {text : String} :
    strict? bytes = some text ↔ bytes = encode text := by
  constructor
  · intro h
    obtain ⟨hall, hlossy⟩ := of_strict?_eq_some h
    rw [encode, ← hlossy, lossy, String.toList_ofList]
    exact (reads_decode bytes).bytes_eq hall
  · rintro rfl
    have hall : (decode (encode text)).all Option.isSome = true := by simp [decode_encode]
    rw [strict?, if_pos hall, lossy, decode_encode, List.map_map]
    show some (String.ofList (text.toList.map id)) = some text
    rw [List.map_id, String.ofList_toList]

/-- Bytes that are no text are shown with a replacement. -/
theorem replacement_mem_lossy {bytes : List Byte} (hnone : strict? bytes = none) :
    replacement ∈ (lossy bytes).toList := by
  unfold strict? at hnone
  split at hnone
  · exact nomatch hnone
  · next hall =>
    obtain ⟨item, hitem, hmissing⟩ := List.all_eq_false.1 (Bool.eq_false_iff.2 hall)
    rw [lossy, String.toList_ofList]
    refine List.mem_map.2 ⟨item, hitem, ?_⟩
    rw [Option.not_isSome_iff_eq_none.1 hmissing]
    rfl

/-! ## Bytes of ASCII -/

/-- Inside a character the state lets no byte of ASCII through. -/
def State.IsTidy : State → Prop
  | .start => True
  | .inside _ lo _ _ => 0x80 ≤ lo

theorem isTidy_lead (b : Byte) : (lead b).2.IsTidy := by
  rcases lead_cases b with ⟨c, -, hlead⟩ | ⟨-, hlead⟩ | ⟨more, lo, hi, code, hbegun, hlead⟩
  · rw [hlead]; trivial
  · rw [hlead]; trivial
  · rw [hlead]
    exact UInt8.le_iff_toNat_le.2 hbegun.lo_ge

theorem State.IsTidy.step {state : State} (h : state.IsTidy) (b : Byte) :
    (step state b).2.IsTidy := by
  match state with
  | .start => exact isTidy_lead b
  | .inside more lo hi code =>
    by_cases hb : lo ≤ b ∧ b ≤ hi
    · cases more with
      | zero => rw [step_last hb]; trivial
      | succ more => rw [step_onward hb]; exact UInt8.le_refl _
    · rw [step_refused hb]
      exact isTidy_lead b

/-- Wherever the reader stands, a byte of ASCII ends what was begun and is read as itself. -/
theorem decodeFrom_append {a : Byte} (hascii : a < 0x80) {state : State} (h : state.IsTidy)
    (front behind : List Byte) :
    decodeFrom state (front ++ a :: behind)
      = decodeFrom state front ++ some (Char.ofNat a.toNat) :: decode behind := by
  have hlead : lead a = ([some (Char.ofNat a.toNat)], .start) := if_pos hascii
  induction front generalizing state with
  | nil =>
    have hstep : step state a = (finish state ++ [some (Char.ofNat a.toNat)], .start) := by
      match state with
      | .start => exact hlead
      | .inside more lo hi code =>
        have hrefused : ¬ (lo ≤ a ∧ a ≤ hi) := fun hlet =>
          UInt8.not_le.2 hascii (UInt8.le_trans h hlet.1)
        rw [step_refused hrefused, hlead]
        rfl
    show (step state a).1 ++ decodeFrom (step state a).2 behind = finish state ++ _
    rw [hstep, List.append_assoc]
    rfl
  | cons b front ih =>
    rw [List.cons_append, decodeFrom, decodeFrom, ih (h.step b), List.append_assoc]

/-- Around a byte of ASCII bytes are shown on their own. -/
theorem lossy_append {a : Byte} (hascii : a < 0x80) (front behind : List Byte) :
    lossy (front ++ [a] ++ behind)
      = lossy front ++ String.ofList [Char.ofNat a.toNat] ++ lossy behind := by
  have hdecode : decode (front ++ [a] ++ behind)
      = decode front ++ some (Char.ofNat a.toNat) :: decode behind := by
    have htidy : State.start.IsTidy := trivial
    rw [List.append_assoc]
    exact decodeFrom_append hascii htidy front behind
  rw [lossy, hdecode, List.map_append, String.ofList_append, List.map_cons, lossy, lossy,
    ← List.singleton_append, String.ofList_append, String.append_assoc]
  rfl

end ByteTokenizer.Text.Utf8
