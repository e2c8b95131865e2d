/-
  SPELLINGS OF AN ALPHABET: which documents stand for it.

  An alphabet is written as an object with a member for each of its seven tests.  The same
  alphabet is read from that object in whatever order the members stand, if members with other
  names are among them, and if tests that accept nothing are left out (`WrittenAs`); and it is
  read from the bare list of the tests, from which the last ones may be missing if they accept
  nothing.

  All of this is one fact about what is found where a test is looked for: either its document, or
  nothing where the test accepts nothing (`Shows`).  The seven places then give the alphabet
  (`ofTests?_of_shows`).  What is refused is refused for one of the seven
  (`ofTests?_eq_none_iff`), so no other member of an object counts.
-/
import ByteTokenizer.Document.Alphabet
import Mathlib.Data.List.Nodup

namespace ByteTokenizer

/-! ## Members of an object -/

namespace Document

/-- The document of a class that accepts nothing. -/
def never : Document := .text "never"

theorem member?_eq_none_iff {members : List (String × Document)} {name : String} :
    member? members name = none ↔ ∀ value, (name, value) ∉ members := by
  rw [member?, List.lookup_eq_none_iff]
  constructor
  · intro h value hmem
    exact absurd (h _ hmem) (by simp)
  · intro h m hm
    exact bne_iff_ne.2 fun hname => h m.2 (hname ▸ hm)

/-- A member is found by its name if no other one has the name. -/
theorem member?_eq_some {members : List (String × Document)} {name : String} {value : Document}
    (hmem : (name, value) ∈ members)
    (hunique : ∀ value', (name, value') ∈ members → value' = value) :
    member? members name = some value := by
  cases hfound : member? members name with
  | none => exact absurd hmem (member?_eq_none_iff.1 hfound value)
  | some value' =>
    obtain ⟨front, behind, rfl, -⟩ := List.lookup_eq_some_iff.1 hfound
    rw [hunique value' (by simp)]

/-- Where the names are distinct, members are found and nothing else is. -/
theorem member?_eq_some_iff {members : List (String × Document)}
    (hdistinct : (members.map Prod.fst).Nodup) {name : String} {value : Document} :
    member? members name = some value ↔ (name, value) ∈ members := by
  constructor
  · intro hfound
    obtain ⟨front, behind, rfl, -⟩ := List.lookup_eq_some_iff.1 hfound
    simp
  · intro hmem
    refine member?_eq_some hmem fun value' hmem' => ?_
    exact congrArg Prod.snd (List.inj_on_of_nodup_map hdistinct hmem' hmem rfl)

end Document

namespace Alphabet

open Document (member? never)

/-! ## The seven places -/

/-- The document of a test is found, or nothing is found and the test accepts nothing. -/
def Shows (found : Option Document) (document : Document) : Prop :=
  found = some document ∨ found = none ∧ document = never

theorem range?_of_shows {found : Option Document} {r : Range} (h : Shows found r.toDocument) :
    range? found = some r := by
  rcases h with rfl | ⟨rfl, hnever⟩
  · exact Range.ofDocument?_toDocument r
  · have hread := Range.ofDocument?_toDocument r
    rw [hnever] at hread
    exact hread

theorem points?_of_shows {found : Option Document} {p : Points} (h : Shows found p.toDocument) :
    points? found = some p := by
  rcases h with rfl | ⟨rfl, hnever⟩
  · exact Points.ofDocument?_toDocument p
  · have hread := Points.ofDocument?_toDocument p
    rw [hnever] at hread
    exact hread

/-- Where the seven places show the tests of an alphabet, they give that alphabet. -/
theorem ofTests?_of_shows {a : Alphabet}
    {numbers letters quotes delimiters ignored comments extraLetters : Option Document}
    (hnumbers : Shows numbers a.numbers.toDocument) (hletters : Shows letters a.letters.toDocument)
    (hquotes : Shows quotes a.quotes.toDocument)
    (hdelimiters : Shows delimiters a.delimiters.toDocument)
    (hignored : Shows ignored a.ignored.toDocument)
    (hcomments : Shows comments a.comments.toDocument)
    (hextra : Shows extraLetters a.extraLetters.toDocument) :
    ofTests? numbers letters quotes delimiters ignored comments extraLetters = some a := by
  rw [ofTests?, range?_of_shows hnumbers, range?_of_shows hletters, points?_of_shows hquotes,
    points?_of_shows hdelimiters, points?_of_shows hignored, points?_of_shows hcomments,
    points?_of_shows hextra]
  rfl

theorem range?_eq_none_iff {found : Option Document} :
    range? found = none ↔ ∃ value, found = some value ∧ Range.ofDocument? value = none := by
  cases found <;> simp [range?]

theorem points?_eq_none_iff {found : Option Document} :
    points? found = none ↔ ∃ value, found = some value ∧ Points.ofDocument? value = none := by
  cases found <;> simp [points?]

/-- What follows may fail for a reason of its own, whatever the first value was. -/
theorem bind_eq_none_iff_or {α β : Type} {x : Option α} {f : α → Option β} {P : Prop}
    (h : ∀ a, f a = none ↔ P) : (x >>= f) = none ↔ x = none ∨ P := by
  cases x with
  | none => exact ⟨fun _ => .inl rfl, fun _ => rfl⟩
  | some a => exact ⟨fun hf => .inr ((h a).1 hf), fun hor => (h a).2 (hor.resolve_left nofun)⟩

/-- The seven places are refused exactly if one of them is. -/
theorem ofTests?_eq_none_iff
    {numbers letters quotes delimiters ignored comments extraLetters : Option Document} :
    ofTests? numbers letters quotes delimiters ignored comments extraLetters = none
      ↔ (∃ found ∈ [numbers, letters], range? found = none)
        ∨ ∃ found ∈ [quotes, delimiters, ignored, comments, extraLetters],
          points? found = none := by
  simp only [List.mem_cons, List.not_mem_nil, or_false, exists_eq_or_imp, exists_eq_left, or_assoc]
  refine bind_eq_none_iff_or fun _ => bind_eq_none_iff_or fun _ => bind_eq_none_iff_or fun _ =>
    bind_eq_none_iff_or fun _ => bind_eq_none_iff_or fun _ => bind_eq_none_iff_or fun _ => ?_
  cases points? extraLetters with
  | none => exact ⟨fun _ => rfl, fun _ => rfl⟩
  | some _ => exact ⟨nofun, nofun⟩

/-! ## Objects -/

/-- The tests of the alphabet under the names of their members, in their order. -/
def tests (a : Alphabet) : List (String × Document) :=
  [("numbers", a.numbers.toDocument), ("chars", a.letters.toDocument),
    ("string", a.quotes.toDocument), ("delimiter", a.delimiters.toDocument),
    ("ignore", a.ignored.toDocument), ("comment", a.comments.toDocument),
    ("plain_chars", a.extraLetters.toDocument)]

theorem toDocument_eq (a : Alphabet) : a.toDocument = .object a.tests := rfl

/-- The names of the tests that are ranges. -/
def rangeNames : List String := ["numbers", "chars"]

/-- The names of the tests that are points. -/
def pointsNames : List String := ["string", "delimiter", "ignore", "comment", "plain_chars"]

theorem map_fst_tests (a : Alphabet) : a.tests.map Prod.fst = rangeNames ++ pointsNames := rfl

/-- Two tests do not have the same name. -/
theorem eq_of_mem_tests {a : Alphabet} {name : String} {value value' : Document}
    (h : (name, value) ∈ a.tests) (h' : (name, value') ∈ a.tests) : value' = value := by
  have hdistinct : (a.tests.map Prod.fst).Nodup := by
    rw [map_fst_tests]
    decide
  exact congrArg Prod.snd (List.inj_on_of_nodup_map hdistinct h' h rfl)

/-- The members are the tests of the alphabet in any order, of which some that accept nothing may
    be left out, and any members with names of their own. -/
def WrittenAs (a : Alphabet) (members : List (String × Document)) : Prop :=
  ∃ kept unknown, members.Perm (kept ++ unknown) ∧ kept.Sublist a.tests
    ∧ (∀ test ∈ a.tests, test ∉ kept → test.2 = never)
    ∧ ∀ m ∈ unknown, m.1 ∉ rangeNames ++ pointsNames

/-- Each test is shown by such members under its name. -/
theorem WrittenAs.shows {a : Alphabet} {members : List (String × Document)}
    (h : a.WrittenAs members) {name : String} {value : Document} (htest : (name, value) ∈ a.tests) :
    Shows (member? members name) value := by
  obtain ⟨kept, unknown, hperm, hkept, hleft, hunknown⟩ := h
  -- a member with the name of a test is one of the tests that are kept
  have hname : name ∈ rangeNames ++ pointsNames :=
    map_fst_tests a ▸ List.mem_map_of_mem htest
  have hmem : ∀ value', (name, value') ∈ members ↔ (name, value') ∈ kept := by
    intro value'
    rw [hperm.mem_iff, List.mem_append]
    exact or_iff_left fun hother => hunknown _ hother hname
  have hsame : ∀ value', (name, value') ∈ kept → value' = value :=
    fun value' hvalue' => eq_of_mem_tests htest (hkept.subset hvalue')
  by_cases hin : (name, value) ∈ kept
  · exact .inl (Document.member?_eq_some ((hmem value).2 hin)
      fun value' hvalue' => hsame value' ((hmem value').1 hvalue'))
  · refine .inr ⟨Document.member?_eq_none_iff.2 fun value' hvalue' => ?_, hleft _ htest hin⟩
    have hvalue := (hmem value').1 hvalue'
    exact hin (hsame value' hvalue ▸ hvalue)

theorem ofDocument?_object {a : Alphabet} {members : List (String × Document)}
    (h : a.WrittenAs members) : ofDocument? (.object members) = some a := by
  refine ofTests?_of_shows ?_ ?_ ?_ ?_ ?_ ?_ ?_ <;> exact h.shows (by simp [tests])

/-- The value cannot be read as the test of that name. -/
def Refused (name : String) (value : Document) : Prop :=
  name ∈ rangeNames ∧ Range.ofDocument? value = none
    ∨ name ∈ pointsNames ∧ Points.ofDocument? value = none

/-- What is found under names is what the members of those names hold. -/
theorem exists_found_iff {members : List (String × Document)}
    (hdistinct : (members.map Prod.fst).Nodup) {names : List String} {P : Document → Prop} :
    (∃ found ∈ names.map (member? members), ∃ value, found = some value ∧ P value)
      ↔ ∃ m ∈ members, m.1 ∈ names ∧ P m.2 := by
  constructor
  · rintro ⟨_, hfound, value, rfl, hvalue⟩
    obtain ⟨name, hname, hfound⟩ := List.mem_map.1 hfound
    exact ⟨(name, value), (Document.member?_eq_some_iff hdistinct).1 hfound, hname, hvalue⟩
  · rintro ⟨⟨name, value⟩, hm, hname, hvalue⟩
    have hfound := (Document.member?_eq_some_iff hdistinct).2 hm
    exact ⟨some value, List.mem_map.2 ⟨name, hname, hfound⟩, value, rfl, hvalue⟩

/-- An object is refused for the value of one of its tests and for nothing else. -/
theorem ofDocument?_object_eq_none_iff {members : List (String × Document)}
    (hdistinct : (members.map Prod.fst).Nodup) :
    ofDocument? (.object members) = none ↔ ∃ m ∈ members, Refused m.1 m.2 := by
  have hplaces : ofDocument? (.object members) = none
      ↔ (∃ found ∈ rangeNames.map (member? members), range? found = none)
        ∨ ∃ found ∈ pointsNames.map (member? members), points? found = none :=
    ofTests?_eq_none_iff
  simp only [range?_eq_none_iff, points?_eq_none_iff, exists_found_iff hdistinct] at hplaces
  rw [hplaces, ← exists_or]
  exact exists_congr fun m => and_or_left.symm

/-! ## Arrays -/

/-- In a list of the tests that stops early, each place shows its test if the missing ones accept
    nothing. -/
theorem shows_getElem? {kept omitted : List Document} (hnever : ∀ d ∈ omitted, d = never)
    {index : Nat} {document : Document} (htest : (kept ++ omitted)[index]? = some document) :
    Shows kept[index]? document := by
  rcases Nat.lt_or_ge index kept.length with hlt | hge
  · exact .inl ((List.getElem?_append_left hlt).symm.trans htest)
  · rw [List.getElem?_append_right hge] at htest
    exact .inr ⟨List.getElem?_eq_none hge, hnever document (List.mem_of_getElem? htest)⟩

theorem ofDocument?_array {a : Alphabet} {kept omitted : List Document}
    (htests : kept ++ omitted = a.tests.map Prod.snd) (hnever : ∀ d ∈ omitted, d = never) :
    ofDocument? (.array kept) = some a := by
  have hlength : kept.length ≤ 7 := by
    have htotal := congrArg List.length htests
    rw [List.length_append] at htotal
    exact Nat.le_of_add_right_le (Nat.le_of_eq htotal)
  have hshows : ∀ index document, (a.tests.map Prod.snd)[index]? = some document →
      Shows kept[index]? document :=
    fun index document htest => shows_getElem? hnever (htests ▸ htest)
  rw [ofDocument?, if_pos hlength]
  exact ofTests?_of_shows (hshows 0 _ rfl) (hshows 1 _ rfl) (hshows 2 _ rfl) (hshows 3 _ rfl)
    (hshows 4 _ rfl) (hshows 5 _ rfl) (hshows 6 _ rfl)

/-! ## Reading and writing -/

/-- What is so of all classes and alphabets and the documents that stand for them. -/
structure SurvivesDocuments : Prop where
  /-- An alphabet is written as the object of its tests. -/
  written : ∀ a : Alphabet, a.toDocument = .object a.tests
  /-- What was written is read back. -/
  range : ∀ r : Range, Range.ofDocument? r.toDocument = some r
  points : ∀ p : Points, Points.ofDocument? p.toDocument = some p
  alphabet : ∀ a : Alphabet, ofDocument? a.toDocument = some a
  /-- What is written alike is the same. -/
  range_injective : Function.Injective Range.toDocument
  points_injective : Function.Injective Points.toDocument
  alphabet_injective : Function.Injective toDocument
  /-- An object may have its members in any order and others among them, and leave out tests that
      accept nothing. -/
  object : ∀ (a : Alphabet) (members : List (String × Document)), a.WrittenAs members →
    ofDocument? (.object members) = some a
  /-- The bare list of the tests may stop before the last ones if they accept nothing. -/
  array : ∀ (a : Alphabet) (kept omitted : List Document),
    kept ++ omitted = a.tests.map Prod.snd → (∀ d ∈ omitted, d = never) →
    ofDocument? (.array kept) = some a
  /-- An object is refused exactly if the value of one of its tests is. -/
  refused : ∀ members : List (String × Document), (members.map Prod.fst).Nodup →
    (ofDocument? (.object members) = none ↔ ∃ m ∈ members, Refused m.1 m.2)

/-- A form from which everything can be read back is another one for every value. -/
theorem injective_of_read {α : Type} {write : α → Document} {read? : Document → Option α}
    (h : ∀ x, read? (write x) = some x) : Function.Injective write := by
  intro x y hxy
  exact Option.some.inj ((h x).symm.trans ((congrArg read? hxy).trans (h y)))

/-- **Alphabets survive their documents.**  Whatever is written is read back, and the spellings
    that an alphabet may have besides are all read as that alphabet. -/
theorem alphabets_survive_documents : SurvivesDocuments where
  written := toDocument_eq
  range := Range.ofDocument?_toDocument
  points := Points.ofDocument?_toDocument
  alphabet := ofDocument?_toDocument
  range_injective := injective_of_read Range.ofDocument?_toDocument
  points_injective := injective_of_read Points.ofDocument?_toDocument
  alphabet_injective := injective_of_read ofDocument?_toDocument
  object _ _ := ofDocument?_object
  array _ _ _ := ofDocument?_array
  refused _ := ofDocument?_object_eq_none_iff

/-- Digits open a number, and blanks are ignored. -/
def digitsAndBlanks : Alphabet := { numbers := .digits, ignored := .listed [0x20] }

/-- The two tests in the other order, and a member with a name of its own between them. -/
def digitsAndBlanksMembers : List (String × Document) :=
  [("ignore", digitsAndBlanks.ignored.toDocument), ("version", .number 15 1),
    ("numbers", digitsAndBlanks.numbers.toDocument)]

theorem writtenAs_digitsAndBlanksMembers : digitsAndBlanks.WrittenAs digitsAndBlanksMembers := by
  refine ⟨[("numbers", digitsAndBlanks.numbers.toDocument),
    ("ignore", digitsAndBlanks.ignored.toDocument)], [("version", .number 15 1)], ?_, ?_, ?_, ?_⟩
  · exact List.perm_append_singleton _ [_, _]
  · exact .cons_cons _ (.cons _ (.cons _ (.cons _ (.cons_cons _ (.cons _ (.cons _ .slnil))))))
  · simp [tests, digitsAndBlanks, Range.toDocument, Points.toDocument, never]
  · simp [rangeNames, pointsNames]

-- the object and the list that stops behind the fifth test are read alike; a null where a test is
-- looked for is refused, and elsewhere it is not
theorem alphabets_survive_documents_digitsAndBlanks :
    ofDocument? (.object digitsAndBlanksMembers) = some digitsAndBlanks
      ∧ ofDocument? (.array ((digitsAndBlanks.tests.map Prod.snd).take 5)) = some digitsAndBlanks
      ∧ ofDocument? (.object [("version", .null), ("comment", .null)]) = none
      ∧ ofDocument? (.object [("version", .null)]) ≠ none := by
  have hsurvives := alphabets_survive_documents
  refine ⟨hsurvives.object _ _ writtenAs_digitsAndBlanksMembers,
    hsurvives.array _ _ ((digitsAndBlanks.tests.map Prod.snd).drop 5) rfl ?_, ?_, ?_⟩
  · simp [tests, digitsAndBlanks, Points.toDocument, never]
  · exact (hsurvives.refused _ (by decide)).2
      ⟨("comment", .null), by simp, .inr ⟨by decide, rfl⟩⟩
  · rw [ne_eq, hsurvives.refused _ (by decide)]
    simp [Refused, rangeNames, pointsNames]

end Alphabet

end ByteTokenizer
