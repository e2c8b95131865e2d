/-
  THE LISTING: what the program of the small language writes, and what can be read off it.

  A listing has a line for each token, an empty line and the number of tokens.  A token may hold
  any bytes, line feeds and quotes among them, but its line is still one line: the kind fills a
  column of ten characters, and the text stands in quotes, where only characters that show are
  written.  A message is one line too.

  So a reader who cuts the output at its line feeds has the lines, and from each of them the kind,
  which is what stands in the column, and the text, which is what the quotes spell.  Two listings
  that are alike tell of the same kinds and texts in the same order.
-/
import ByteTokenizer.Program.Language
import ByteTokenizer.Proofs.Text.Quoted
import Mathlib.Tactic.SplitIfs

namespace ByteTokenizer

open Text (IsLine ofLines isLine_toString isPrinted_digit)

/-! ## Messages -/

theorem Byte.isLine_hex (b : Byte) : IsLine (Byte.hex b) := by
  have hlt := b.toNat_lt
  intro c hc
  rw [Byte.hex, String.toList_ofList] at hc
  rcases List.mem_cons.1 hc with rfl | hlow
  · exact isPrinted_digit (by omega)
  · obtain rfl := List.mem_singleton.1 hlow
    exact isPrinted_digit (by omega)

/-- The spelling of a byte stays on its line, that of a line feed too. -/
theorem Byte.isLine_escape (b : Byte) : IsLine (Byte.escape b) := by
  have hshows : ∀ b : Byte, 0x20 ≤ b ∧ b ≤ 0x7e → Text.isPrinted (Char.ofNat b.toNat) = true :=
    Byte.forall_of_all (by decide +kernel)
  unfold Byte.escape
  split_ifs with htab hfeed hreturn hquote hapostrophe hbackslash hshown
  · decide +kernel
  · decide +kernel
  · decide +kernel
  · decide +kernel
  · decide +kernel
  · decide +kernel
  · intro c hc
    rw [String.toList_ofList] at hc
    obtain rfl := List.mem_singleton.1 hc
    exact hshows b hshown
  · have hescape : IsLine "\\x" := by decide +kernel
    exact hescape.append (Byte.isLine_hex b)

theorem Location.isLine_display (l : Location) : IsLine l.display := by
  have hline : IsLine "line " := by decide +kernel
  have hcolumn : IsLine ", column " := by decide +kernel
  exact ((hline.append (isLine_toString _)).append hcolumn).append (isLine_toString _)

/-- A message stays on its line, whatever byte it is about. -/
theorem Failure.isLine_message (failure : Failure) : IsLine failure.message := by
  cases failure with
  | absentContent => decide +kernel
  | unexpectedByte byte location =>
    have hbyte : IsLine "unexpected byte '" := by decide +kernel
    have hcode : IsLine "' (0x" := by decide +kernel
    have hat : IsLine ") at " := by decide +kernel
    have hspelled := (hbyte.append byte.isLine_escape).append hcode
    exact ((hspelled.append byte.isLine_hex).append hat).append location.isLine_display
  | stalled category location =>
    have hcategory : IsLine (category.name ++ " callbacks made no progress at ") := by
      cases category <;> decide +kernel
    exact hcategory.append location.isLine_display

namespace Program.Language

/-! ## The line of a token -/

/-- What a listing tells of a token: its kind, and its bytes read as text. -/
def entry (token : Token) : Kind × String := (token.kind, Text.Utf8.lossy token.value)

/-- The line of an entry, without the line feed that ends it. -/
def entryLine (entry : Kind × String) : String :=
  entry.1.display { width := 10 } ++ " " ++ Text.quoted entry.2

theorem line_eq (token : Token) : line token = entryLine (entry token) ++ "\n" := rfl

/-- Every kind has ten characters in the column. -/
theorem length_display (kind : Kind) : (kind.display { width := 10 }).toList.length = 10 := by
  cases kind <;> decide +kernel

/-- What stands in the column tells the kind. -/
theorem display_inj {kind kind' : Kind}
    (h : kind.display { width := 10 } = kind'.display { width := 10 }) : kind = kind' := by
  cases kind <;> cases kind' <;> first | rfl | exact absurd h (by decide +kernel)

theorem isLine_entryLine (entry : Kind × String) : IsLine (entryLine entry) := by
  obtain ⟨kind, text⟩ := entry
  have hcolumn : IsLine (kind.display { width := 10 } ++ " ") := by
    cases kind <;> decide +kernel
  exact hcolumn.append (Text.isLine_quoted text)

/-- A line gives the kind and the text. -/
theorem entryLine_inj {entry entry' : Kind × String} (h : entryLine entry = entryLine entry') :
    entry = entry' := by
  obtain ⟨kind, text⟩ := entry
  obtain ⟨kind', text'⟩ := entry'
  have hchars := congrArg String.toList h
  simp only [entryLine, String.toList_append, List.append_assoc] at hchars
  have hlength : (kind.display { width := 10 }).toList.length
      = (kind'.display { width := 10 }).toList.length := by
    rw [length_display, length_display]
  obtain ⟨hcolumn, hbehind⟩ := List.append_inj hchars hlength
  obtain rfl := display_inj (String.toList_inj.1 hcolumn)
  have hquoted := String.toList_inj.1 (List.append_cancel_left hbehind)
  rw [Text.quoted_inj hquoted]

/-! ## The whole listing -/

/-- The lines of a listing: one for each entry, an empty one and the number of entries. -/
def lines (entries : List (Kind × String)) : List String :=
  entries.map entryLine ++ ["", toString entries.length ++ " tokens"]

theorem listing_eq (tokens : List Token) : listing tokens = ofLines (lines (tokens.map entry)) := by
  have hend : ofLines ["", toString tokens.length ++ " tokens"]
      = "\n" ++ toString tokens.length ++ " tokens\n" := by
    simp [ofLines, String.append_assoc]
  have hlines : ofLines ((tokens.map entry).map entryLine) = String.join (tokens.map line) := by
    rw [ofLines, List.map_map, List.map_map]
    exact congrArg String.join (List.map_congr_left fun token _ => (line_eq token).symm)
  rw [lines, Text.ofLines_append, hlines, List.length_map, hend, listing, String.append_assoc,
    String.append_assoc, String.append_assoc]

theorem isLine_of_mem_lines {entries : List (Kind × String)} {text : String}
    (htext : text ∈ lines entries) : IsLine text := by
  have hempty : IsLine "" := by decide +kernel
  have htokens : IsLine " tokens" := by decide +kernel
  rcases List.mem_append.1 htext with hentry | hend
  · obtain ⟨entry, -, rfl⟩ := List.mem_map.1 hentry
    exact isLine_entryLine entry
  · rcases List.mem_cons.1 hend with rfl | hcount
    · exact hempty
    · obtain rfl := List.mem_singleton.1 hcount
      exact (isLine_toString _).append htokens

/-- Listings that are alike have the same entries. -/
theorem listing_inj {tokens tokens' : List Token} (h : listing tokens = listing tokens') :
    tokens.map entry = tokens'.map entry := by
  rw [listing_eq, listing_eq] at h
  have hlines : lines (tokens.map entry) = lines (tokens'.map entry) :=
    Text.ofLines_inj (fun _ => isLine_of_mem_lines) (fun _ => isLine_of_mem_lines) h
  obtain ⟨hentries, -⟩ := List.append_inj' hlines rfl
  exact (List.map_inj_right fun _ _ => entryLine_inj).1 hentries

/-! ## What the program leaves behind -/

/-- What the program leaves behind if the source has these tokens. -/
structure Lists (source : List Byte) (tokens : List Token) : Prop where
  code_eq : (run (.file source)).code = 0
  stderr_eq : (run (.file source)).stderr = ""
  stdout_eq : (run (.file source)).stdout = ofLines (lines (tokens.map entry))
  /-- None of the lines is broken by what it tells. -/
  isLine : ∀ text ∈ lines (tokens.map entry), IsLine text
  /-- Cut at its line feeds, the output gives these lines and nothing behind the last one. -/
  splitOn_eq : (run (.file source)).stdout.toList.splitOn '\n'
    = (lines (tokens.map entry)).map String.toList ++ [[]]

/-- What the program leaves behind if the source cannot be tokenized. -/
structure GivesUp (source : List Byte) (failure : Failure) : Prop where
  code_eq : (run (.file source)).code = 1
  stdout_eq : (run (.file source)).stdout = ""
  stderr_eq : (run (.file source)).stderr = ofLines ["error: " ++ failure.message]
  isLine : IsLine ("error: " ++ failure.message)

theorem lists_of_tokenize {source : List Byte} {tokens : List Token}
    (htokens : tokenizer.tokenize source = .ok tokens) : Lists source tokens := by
  have hrun : run (.file source) = .success (listing tokens) := by
    rw [run, list, htokens]
  constructor
  · rw [hrun, Outcome.success]
  · rw [hrun, Outcome.success]
  · rw [hrun, Outcome.success, listing_eq]
  · exact fun _ => isLine_of_mem_lines
  · rw [hrun, Outcome.success, listing_eq]
    exact Text.splitOn_ofLines fun _ => isLine_of_mem_lines

theorem givesUp_of_tokenize {source : List Byte} {failure : Failure}
    (hfailure : tokenizer.tokenize source = .error failure) : GivesUp source failure := by
  have hrun : run (.file source) = .failure ("error: " ++ failure.message) := by
    rw [run, list, hfailure]
  have herror : IsLine "error: " := by decide +kernel
  constructor
  · rw [hrun, Outcome.failure]
  · rw [hrun, Outcome.failure]
  · rw [hrun, Outcome.failure]
    simp [ofLines]
  · exact herror.append failure.isLine_message

/-- **The listing is all or nothing, and it can be read back.**  A source that can be tokenized
    gives a line for each token, an empty line and the count; any other source gives one message
    and no listing.  Sources with the same listing have the same kinds and texts in the same
    order. -/
theorem listing_is_unambiguous :
    (∀ source tokens, tokenizer.tokenize source = .ok tokens → Lists source tokens)
      ∧ (∀ source failure, tokenizer.tokenize source = .error failure → GivesUp source failure)
      ∧ ∀ source source' tokens tokens', tokenizer.tokenize source = .ok tokens →
        tokenizer.tokenize source' = .ok tokens' →
        (run (.file source)).stdout = (run (.file source')).stdout →
        tokens.map entry = tokens'.map entry := by
  refine ⟨fun _ _ => lists_of_tokenize, fun _ _ => givesUp_of_tokenize, ?_⟩
  intro source source' tokens tokens' htokens htokens' hsame
  rw [(lists_of_tokenize htokens).stdout_eq, (lists_of_tokenize htokens').stdout_eq,
    ← listing_eq, ← listing_eq] at hsame
  exact listing_inj hsame

/-- A string with a line feed, a quote that is kept, and the byte. -/
def lineAndQuote (b : Byte) : Token := ⟨.string, [0x0a, 0x5c, 0x22, b]⟩

-- such a string with a stray byte, and behind a blank a keyword; the same with another stray byte
-- and no blank, which gives the same listing; and a number that is not listed because of the dollar
-- sign behind it
theorem listing_is_unambiguous_strayBytes :
    (run (.file [0x22, 0x0a, 0x5c, 0x22, 0xff, 0x22, 0x20, 0x66, 0x6e])).stdout
        = "string     \"\\n\\\\\\\"\uFFFD\"\nkeyword    \"fn\"\n\n2 tokens\n"
      ∧ Lists [0x22, 0x0a, 0x5c, 0x22, 0xff, 0x22, 0x20, 0x66, 0x6e]
        [lineAndQuote 0xff, ⟨.keyword, [0x66, 0x6e]⟩]
      ∧ entry (lineAndQuote 0xff) = entry (lineAndQuote 0xfe)
      ∧ GivesUp [0x31, 0x24] (.unexpectedByte 0x24 ⟨1, 2, 1⟩)
      ∧ (run (.file [0x31, 0x24])).stderr
        = "error: unexpected byte '$' (0x24) at line 1, column 2\n" := by
  obtain ⟨hlists, hgives, hsame⟩ := listing_is_unambiguous
  have htokens : tokenizer.tokenize [0x22, 0x0a, 0x5c, 0x22, 0xff, 0x22, 0x20, 0x66, 0x6e]
      = .ok [lineAndQuote 0xff, ⟨.keyword, [0x66, 0x6e]⟩] := by cbv
  have htokens' : tokenizer.tokenize [0x22, 0x0a, 0x5c, 0x22, 0xfe, 0x22, 0x66, 0x6e]
      = .ok [lineAndQuote 0xfe, ⟨.keyword, [0x66, 0x6e]⟩] := by cbv
  have hfailure : tokenizer.tokenize [0x31, 0x24] = .error (.unexpectedByte 0x24 ⟨1, 2, 1⟩) := by
    cbv
  have hstdout : (run (.file [0x22, 0x0a, 0x5c, 0x22, 0xff, 0x22, 0x20, 0x66, 0x6e])).stdout
      = (run (.file [0x22, 0x0a, 0x5c, 0x22, 0xfe, 0x22, 0x66, 0x6e])).stdout := by
    decide +kernel
  refine ⟨by decide +kernel, hlists _ _ htokens, ?_, hgives _ _ hfailure, by decide +kernel⟩
  exact (List.cons.inj (hsame _ _ _ _ htokens htokens' hstdout)).1

end Program.Language

end ByteTokenizer
