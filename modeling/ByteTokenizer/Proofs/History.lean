/-
  HISTORIES: what a session keeps of the requests that were made.

  Of the requests before it, a reply depends on two things: for each category, the rules that were
  registered for it, in their order (`registered`, `toMindful_after`), and what the rules remember.

  1. The lists of rules may as well stand in a row, each at the index of its category; to register
     a rule, by whatever method, is then to put it at the end of the list at that index
     (`Registry.row_addRule`).  So registrations for different categories commute.

  2. A run comes to the lists of those categories that bytes of the content open.  Sessions that
     differ in the rules of one category go on alike, and remember alike, as long as no content has
     a byte that opens it (`AgreeBut.outcomes_eq`).  Of the rules nothing is known here but that
     they advance the cursor.

  3. Memoryless rules may keep what they like, it is never seen again: two sessions with the same
     memoryless rules give the same replies, whatever is in their memories (`replies_congr`).  So a
     tokenization, and a failure no less, leaves no trace.

  4. Rules that remember do leave one: with a rule that takes a byte in every second call
     (`everySecond`) the same content gives a token and then a failure, though no rule was
     registered in between.
-/
import ByteTokenizer.Proofs.Tokenizer.Mindful
import ByteTokenizer.Tokenizer.Session
import Mathlib.Data.List.Permutation

namespace ByteTokenizer

open Cursor (between)

variable {σ : Type}

/-! ## The lists in a row -/

namespace Registry

variable {ρ : Type}

/-- The lists of all categories, each at the index of its category. -/
def row (lists : Registry ρ) : List (List ρ) := Category.all.map lists

theorem getElem?_row (lists : Registry ρ) (category : Category) :
    lists.row[category.index]? = some (lists category) := by
  cases category <;> rfl

/-- To add a rule is to put it at the end of one list of the row. -/
theorem row_addRule (lists : Registry ρ) (category : Category) (rule : ρ) :
    (lists.addRule category rule).row = lists.row.modify category.index (· ++ [rule]) := by
  cases category <;> rfl

/-- Rules of different categories may be added in either order. -/
theorem addRule_comm (lists : Registry ρ) {category category' : Category} (rule rule' : ρ)
    (hne : category ≠ category') :
    (lists.addRule category rule).addRule category' rule'
      = (lists.addRule category' rule').addRule category rule := by
  funext c
  by_cases hc : c = category
  · have hc' : c ≠ category' := hc ▸ hne
    rw [addRule_other _ rule' hc', hc, addRule_same, addRule_same,
      addRule_other lists rule' hne]
  · rw [addRule_other _ rule hc]
    by_cases hc' : c = category'
    · rw [hc', addRule_same, addRule_same, addRule_other lists rule (Ne.symm hne)]
    · rw [addRule_other _ rule' hc', addRule_other _ rule' hc', addRule_other lists rule hc]

end Registry

/-! ## Categories that a run does not come to -/

/-- A run comes to the rules of those categories only that bytes of the content open. -/
theorem Varying.run_congr {v v' : Varying} (halphabet : v'.alphabet = v.alphabet)
    (content : List Byte)
    (hrules : ∀ b ∈ content, ∀ category, v.alphabet.classify b = some (.opens category) →
      ∀ n, v'.rules n category = v.rules n category) :
    v'.run content = v.run content := by
  rw [run, run, Cursor.advance_fresh]
  refine (runFrom_induction (v := v)
    (motive := fun n before ahead r => (∀ b ∈ ahead, ∀ category,
        v.alphabet.classify b = some (.opens category) →
        ∀ n, v'.rules n category = v.rules n category) →
      v'.runFrom n (between before ahead) = r) ?_ ?_ ?_ 0 [] content) hrules
  · intro n before _
    exact runFrom_of_finished Tokenizer.TurnsTo.ended.turn_eq
  · intro n before ahead dispatch failure hturns hrules
    have hturns' : (v'.inTurn n).TurnsTo before ahead _ := hturns.congr halphabet
      fun b hb category hclass => hrules b hb category hclass n
    exact runFrom_of_failed hturns'.turn_eq
  · intro n before used left dispatch r hturns ih hrules
    have hturns' : (v'.inTurn n).TurnsTo before (used ++ left) _ := hturns.congr halphabet
      fun b hb category hclass => hrules b hb category hclass n
    have hleft := ih fun b hb => hrules b (List.mem_append_right used hb)
    rw [runFrom_of_onward hturns'.turn_eq, hleft]

namespace Session

/-! ## What one request does -/

/-- The rule that the request registers, and its category. -/
def Request.registration? : Request σ → Option (Category × MindfulRule σ)
  | addRule category rule => some (category, rule)
  | lexNumber rule => some (.number, rule)
  | lexString rule => some (.string, rule)
  | lexIdentifier rule => some (.identifier, rule)
  | lexDelimiter rule => some (.delimiter, rule)
  | lexComment rule => some (.comment, rule)
  | tokenize _ | describe | showAlphabet => none

/-- A request registers a rule, or asks for a tokenization, or asks for what is there. -/
theorem Request.cases_registration {motive : Request σ → Prop}
    (registers : ∀ request category rule, request.registration? = some (category, rule) →
      motive request)
    (tokenize : ∀ content, motive (.tokenize content)) (describe : motive .describe)
    (showAlphabet : motive .showAlphabet) (request : Request σ) : motive request := by
  cases request with
  | tokenize content => exact tokenize content
  | describe => exact describe
  | showAlphabet => exact showAlphabet
  | _ => exact registers _ _ _ rfl

/-- All requests that register the rule for the category do the same. -/
theorem handle_of_registration {request : Request σ} {category : Category} {rule : MindfulRule σ}
    (h : request.registration? = some (category, rule)) (S : Session σ) :
    S.handle request = S.withRules (S.rules.addRule category rule) := by
  cases request with
  | tokenize content => exact nomatch h
  | describe => exact nomatch h
  | showAlphabet => exact nomatch h
  | _ =>
    obtain ⟨rfl, rfl⟩ := Prod.mk.inj (Option.some.inj h)
    rfl

/-- Registrations for different categories may be made in either order. -/
theorem handle_comm {request request' : Request σ} {category category' : Category}
    {rule rule' : MindfulRule σ} (h : request.registration? = some (category, rule))
    (h' : request'.registration? = some (category', rule')) (hne : category ≠ category')
    (S : Session σ) :
    ((S.handle request).2.handle request').2 = ((S.handle request').2.handle request).2 := by
  simp only [handle_of_registration h, handle_of_registration h', withRules]
  rw [Registry.addRule_comm S.rules rule rule' hne]

/-- A tokenization is the run with what the rules remember, and they remember what it leaves. -/
theorem handle_tokenize (S : Session σ) (content : List Byte) :
    S.handle (.tokenize (some content))
      = (.tokenized (S.run S.memory content).1.result
          ((S.run S.memory content).1.events content.length),
        { S with memory := (S.run S.memory content).2 }) := rfl

/-- A tokenization has no effect but on the memory. -/
theorem toMindful_handle_tokenize (S : Session σ) (content : Option (List Byte)) :
    (S.handle (.tokenize content)).2.toMindful = S.toMindful := by
  cases content <;> rfl

theorem alphabet_handle (S : Session σ) (request : Request σ) :
    (S.handle request).2.alphabet = S.alphabet := by
  induction request using Request.cases_registration with
  | registers request category rule h => rw [handle_of_registration h, withRules]
  | tokenize content => exact congrArg Mindful.alphabet (toMindful_handle_tokenize S content)
  | describe => rfl
  | showAlphabet => rfl

/-! ## What the requests leave behind -/

/-- The session after the requests. -/
def after (S : Session σ) (requests : List (Request σ)) : Session σ :=
  requests.foldl (fun S request => (S.handle request).2) S

theorem after_cons (S : Session σ) (request : Request σ) (requests : List (Request σ)) :
    after S (request :: requests) = after (S.handle request).2 requests :=
  List.foldl_cons ..

/-- The rules that the requests register for each category, in their order. -/
def registered (requests : List (Request σ)) : Registry (MindfulRule σ) := fun category =>
  ((requests.filterMap Request.registration?).filter (·.1 = category)).map (·.2)

theorem registered_append (before later : List (Request σ)) (category : Category) :
    registered (before ++ later) category
      = registered before category ++ registered later category := by
  simp only [registered, List.filterMap_append, List.filter_append, List.map_append]

/-- A request that registers no rule makes no difference to what is registered. -/
theorem registered_cons_of_none {request : Request σ} (h : request.registration? = none)
    (later : List (Request σ)) : registered (request :: later) = registered later := by
  funext category
  rw [registered, registered, List.filterMap_cons_none h]

/-- A rule is registered for its own category first, and for no other. -/
theorem registered_cons_of_some {request : Request σ} {category : Category} {rule : MindfulRule σ}
    (h : request.registration? = some (category, rule)) (later : List (Request σ))
    (other : Category) :
    registered (request :: later) other
      = (if other = category then [rule] else []) ++ registered later other := by
  rw [registered, registered, List.filterMap_cons_some h, List.filter_cons]
  by_cases hother : other = category
  · simp [hother]
  · simp [hother, Ne.symm hother]

/-- Wherever it is registered, a rule makes no difference to other categories. -/
theorem registered_other {request : Request σ} {category other : Category} {rule : MindfulRule σ}
    (h : request.registration? = some (category, rule)) (hother : other ≠ category)
    (before later : List (Request σ)) :
    registered (before ++ request :: later) other = registered (before ++ later) other := by
  rw [registered_append, registered_append, registered_cons_of_some h, if_neg hother,
    List.nil_append]

/-- The registered rules are those that some request registers. -/
theorem mem_registered_iff {requests : List (Request σ)} {category : Category}
    {rule : MindfulRule σ} : rule ∈ registered requests category
      ↔ ∃ request ∈ requests, request.registration? = some (category, rule) := by
  simp [registered]

/-- One request puts the rule that it registers behind the others of the category. -/
theorem rules_handle (S : Session σ) (request : Request σ) (category : Category) :
    (S.handle request).2.rules category = S.rules category ++ registered [request] category := by
  induction request using Request.cases_registration with
  | registers request c rule h =>
    rw [handle_of_registration h, registered_cons_of_some h]
    show S.rules.addRule c rule category = _
    by_cases hc : category = c
    · rw [hc, Registry.addRule_same, if_pos rfl]
      rfl
    · rw [Registry.addRule_other _ _ hc, if_neg hc]
      exact (List.append_nil _).symm
  | tokenize content =>
    rw [toMindful_handle_tokenize]
    exact (List.append_nil _).symm
  | describe => exact (List.append_nil _).symm
  | showAlphabet => exact (List.append_nil _).symm

/-- The rules after the requests are those before, and behind them the registered ones. -/
theorem rules_after (S : Session σ) (requests : List (Request σ)) (category : Category) :
    (after S requests).rules category = S.rules category ++ registered requests category := by
  induction requests generalizing S with
  | nil => exact (List.append_nil _).symm
  | cons request requests ih =>
    rw [after_cons, ih, rules_handle, List.append_assoc, ← registered_append]
    rfl

theorem alphabet_after (S : Session σ) (requests : List (Request σ)) :
    (after S requests).alphabet = S.alphabet := by
  induction requests generalizing S with
  | nil => rfl
  | cons request requests ih => rw [after_cons, ih, alphabet_handle]

/-- The registered rules are all that the requests leave behind, the memory apart. -/
theorem toMindful_after (alphabet : Alphabet) (s : σ) (requests : List (Request σ)) :
    (after (new alphabet s) requests).toMindful = ⟨alphabet, registered requests⟩ := by
  have hrules : (after (new alphabet s) requests).rules = registered requests :=
    funext fun category => (rules_after _ _ _).trans (List.nil_append _)
  exact congr (congrArg Mindful.mk (alphabet_after (new alphabet s) requests)) hrules

theorem after_append (S : Session σ) (before later : List (Request σ)) :
    after S (before ++ later) = after (after S before) later :=
  List.foldl_append

/-! ## Replies -/

/-- Replies to later requests are those of the session after the earlier ones. -/
theorem replies_append (S : Session σ) (before later : List (Request σ)) :
    replies S (before ++ later) = replies S before ++ replies (after S before) later := by
  induction before generalizing S with
  | nil => rfl
  | cons request before ih => exact congrArg ((S.handle request).1 :: ·) (ih (S.handle request).2)

theorem length_replies (S : Session σ) (requests : List (Request σ)) :
    (replies S requests).length = requests.length := by
  induction requests generalizing S with
  | nil => rfl
  | cons request requests ih => exact congrArg (· + 1) (ih (S.handle request).2)

/-- The reply to a request is that of the session after the requests before it. -/
theorem getElem?_replies (S : Session σ) (before : List (Request σ)) (request : Request σ)
    (later : List (Request σ)) :
    (replies S (before ++ request :: later))[before.length]?
      = some ((after S before).handle request).1 := by
  rw [replies_append, ← length_replies S before, List.getElem?_append_right (Nat.le_refl _),
    Nat.sub_self]
  rfl

/-! ## Sessions that differ in one category -/

/-- The result and the account, if the reply is to a tokenization. -/
def Reply.outcome? : Reply → Option (Except Failure (List Token) × List Event)
  | tokenized result events => some (result, events)
  | registered _ | described _ _ | alphabet _ => none

/-- What comes of the tokenizations among the requests. -/
def outcomes (S : Session σ) (requests : List (Request σ)) :
    List (Except Failure (List Token) × List Event) :=
  (replies S requests).filterMap Reply.outcome?

theorem outcomes_cons (S : Session σ) (request : Request σ) (requests : List (Request σ)) :
    outcomes S (request :: requests)
      = (S.handle request).1.outcome?.toList ++ outcomes (S.handle request).2 requests := by
  rw [outcomes, replies, List.filterMap_cons, outcomes]
  cases (S.handle request).1.outcome? <;> rfl

/-- The request asks for no tokenization of a content in which a byte opens the category. -/
def Request.Avoids (alphabet : Alphabet) (category : Category) (request : Request σ) : Prop :=
  ∀ content, request = .tokenize (some content) →
    ∀ b ∈ content, alphabet.classify b ≠ some (.opens category)

/-- The sessions differ in the rules of the category at most. -/
structure AgreeBut (category : Category) (S S' : Session σ) : Prop where
  alphabet_eq : S'.alphabet = S.alphabet
  memory_eq : S'.memory = S.memory
  rules_eq : ∀ other, other ≠ category → S'.rules other = S.rules other

/-- Without a byte that opens the category, the runs are the same and leave the same memory. -/
theorem AgreeBut.run_eq {category : Category} {S S' : Session σ} (h : AgreeBut category S S')
    {content : List Byte} (hnone : ∀ b ∈ content, S.alphabet.classify b ≠ some (.opens category)) :
    S'.run S'.memory content = S.run S.memory content := by
  rw [h.memory_eq]
  refine Mindful.run_congr h.alphabet_eq S.memory fun b hb c hclass => h.rules_eq c fun heq => ?_
  exact hnone b hb (heq ▸ hclass)

/-- One request that avoids the category keeps the sessions alike, with the same outcome if it is
    a tokenization. -/
theorem AgreeBut.handle {category : Category} {S S' : Session σ} (h : AgreeBut category S S')
    {request : Request σ} (havoids : request.Avoids S.alphabet category) :
    AgreeBut category (S.handle request).2 (S'.handle request).2
      ∧ (S'.handle request).1.outcome? = (S.handle request).1.outcome? := by
  induction request using Request.cases_registration with
  | registers request c rule hreg =>
    rw [handle_of_registration hreg, handle_of_registration hreg]
    refine ⟨⟨h.alphabet_eq, h.memory_eq, fun other hother => ?_⟩, rfl⟩
    show S'.rules.addRule c rule other = S.rules.addRule c rule other
    rw [Registry.addRule, Registry.addRule, h.rules_eq other hother]
  | tokenize content =>
    cases content with
    | none => exact ⟨h, rfl⟩
    | some content =>
      rw [handle_tokenize, handle_tokenize, h.run_eq (havoids content rfl)]
      exact ⟨⟨h.alphabet_eq, rfl, h.rules_eq⟩, rfl⟩
  | describe =>
    show AgreeBut category S S' ∧ none = none
    exact ⟨h, rfl⟩
  | showAlphabet =>
    show AgreeBut category S S' ∧ none = none
    exact ⟨h, rfl⟩

/-- So do many. -/
theorem AgreeBut.outcomes_eq {category : Category} {S S' : Session σ} (h : AgreeBut category S S')
    {requests : List (Request σ)}
    (havoids : ∀ request ∈ requests, request.Avoids S.alphabet category) :
    outcomes S' requests = outcomes S requests
      ∧ (after S' requests).memory = (after S requests).memory := by
  induction requests generalizing S S' with
  | nil => exact ⟨rfl, h.memory_eq⟩
  | cons request requests ih =>
    obtain ⟨hrequest, hrequests⟩ := List.forall_mem_cons.1 havoids
    obtain ⟨hagree, houtcome⟩ := h.handle hrequest
    have hrequests' : ∀ later ∈ requests, later.Avoids (S.handle request).2.alphabet category := by
      rw [alphabet_handle]
      exact hrequests
    obtain ⟨houtcomes, hmemory⟩ := ih hagree hrequests'
    rw [outcomes_cons, outcomes_cons, after_cons, after_cons, houtcome, houtcomes, hmemory]
    exact ⟨rfl, rfl⟩

/-! ## Memoryless rules -/

theorem memoryless_registered_append_iff {before later : List (Request σ)} :
    (registered (before ++ later)).Memoryless
      ↔ (registered before).Memoryless ∧ (registered later).Memoryless := by
  simp only [Registry.Memoryless, registered_append, List.forall_mem_append, forall_and]

/-- The reply to a tokenization over memoryless rules is that of the plain tokenizer. -/
theorem reply_of_memoryless {S : Session σ} (h : S.rules.Memoryless) (s₀ : σ)
    (content : Option (List Byte)) :
    (S.handle (.tokenize content)).1
      = .tokenized ((S.plain s₀).tokenize? content) ((S.plain s₀).events content) := by
  cases content with
  | none => rfl
  | some content =>
    have hrun := Mindful.run_of_memoryless h s₀ S.memory content
    exact congrArg (fun r => Reply.tokenized r.result (r.events content.length)) hrun

/-- The same holds if only the rules of other categories are memoryless, for a content in which no
    byte opens the category. -/
theorem reply_of_unreached {S : Session σ} {category : Category} {content : List Byte}
    (hmemoryless : ∀ other, other ≠ category → ∀ rule ∈ S.rules other, rule.Memoryless)
    (hnone : ∀ b ∈ content, S.alphabet.classify b ≠ some (.opens category)) (s₀ : σ) :
    (S.handle (.tokenize (some content))).1
      = .tokenized (((S.without category).plain s₀).tokenize? (some content))
        (((S.without category).plain s₀).events (some content)) := by
  have hwithout := Mindful.memoryless_without (t := S.toMindful) hmemoryless
  have hrun := Mindful.run_of_memoryless hwithout s₀ S.memory content
  rw [Mindful.run_without hnone] at hrun
  exact congrArg (fun r => Reply.tokenized r.result (r.events content.length)) hrun

/-- So on such a content two sessions that differ in the rules of the category, and in what they
    remember, give the same reply. -/
theorem reply_congr_of_unreached {S S' : Session σ} {category : Category} {content : List Byte}
    (halphabet : S'.alphabet = S.alphabet)
    (hrules : ∀ other, other ≠ category → S'.rules other = S.rules other)
    (hmemoryless : ∀ other, other ≠ category → ∀ rule ∈ S.rules other, rule.Memoryless)
    (hnone : ∀ b ∈ content, S.alphabet.classify b ≠ some (.opens category)) :
    (S'.handle (.tokenize (some content))).1 = (S.handle (.tokenize (some content))).1 := by
  have hmemoryless' : ∀ other, other ≠ category → ∀ rule ∈ S'.rules other, rule.Memoryless := by
    intro other hother
    rw [hrules other hother]
    exact hmemoryless other hother
  have hwithout : S'.without category = S.without category := by
    rw [Mindful.without, Mindful.without, halphabet]
    refine congrArg (Mindful.mk S.alphabet) (funext fun other => ?_)
    by_cases hother : other = category
    · rw [if_pos hother, if_pos hother]
    · rw [if_neg hother, if_neg hother, hrules other hother]
  rw [reply_of_unreached hmemoryless hnone S.memory,
    reply_of_unreached hmemoryless' (halphabet ▸ hnone) S.memory, hwithout]

/-- Sessions with the same memoryless rules give the same replies, whatever they remember. -/
theorem replies_congr {S S' : Session σ} (hsame : S'.toMindful = S.toMindful)
    {requests : List (Request σ)} (hrules : S.rules.Memoryless)
    (hrequests : (registered requests).Memoryless) :
    replies S' requests = replies S requests := by
  induction requests generalizing S S' with
  | nil => rfl
  | cons request requests ih =>
    -- the reply is the same, and the sessions after it differ again in the memory at most
    have hstep : (S'.handle request).1 = (S.handle request).1
        ∧ (S'.handle request).2.toMindful = (S.handle request).2.toMindful := by
      obtain ⟨t, memory⟩ := S
      obtain ⟨t', memory'⟩ := S'
      obtain rfl : t' = t := hsame
      induction request using Request.cases_registration with
      | registers request category rule h =>
        rw [handle_of_registration h, handle_of_registration h]
        exact ⟨rfl, rfl⟩
      | tokenize content =>
        rw [toMindful_handle_tokenize, toMindful_handle_tokenize]
        have hreply := reply_of_memoryless (S := ⟨t', memory⟩) hrules memory content
        have hreply' := reply_of_memoryless (S := ⟨t', memory'⟩) hrules memory content
        exact ⟨hreply'.trans hreply.symm, rfl⟩
      | describe => exact ⟨rfl, rfl⟩
      | showAlphabet => exact ⟨rfl, rfl⟩
    have hboth : (registered ([request] ++ requests)).Memoryless := hrequests
    obtain ⟨hrequest, hrequests'⟩ := memoryless_registered_append_iff.1 hboth
    have hrules' : (S.handle request).2.rules.Memoryless := by
      intro category
      rw [rules_handle]
      exact List.forall_mem_append.2 ⟨hrules category, hrequest category⟩
    rw [replies, replies, hstep.1, ih hstep.2 hrules' hrequests']

/-- After histories with the same memoryless rules all replies are the same. -/
theorem replies_after_congr {alphabet : Alphabet} {before before' later : List (Request σ)}
    (hsame : registered before' = registered before)
    (hmemoryless : (registered (before ++ later)).Memoryless) (s s' : σ) :
    replies (after (new alphabet s') before') later
      = replies (after (new alphabet s) before) later := by
  obtain ⟨hbefore, hlater⟩ := memoryless_registered_append_iff.1 hmemoryless
  refine replies_congr ?_ ?_ hlater
  · rw [toMindful_after, toMindful_after, hsame]
  · rwa [toMindful_after]

end Session

/-! ## The whole session -/

open Session (new after registered replies outcomes Request)

/-- What is so of all sessions with a new tokenizer over the alphabet. -/
structure KeepsApart (σ : Type) (alphabet : Alphabet) : Prop where
  /-- Each category has as many rules as were registered for it. -/
  count_eq : ∀ (s : σ) before category,
    (after (new alphabet s) before).rules.count category = (registered before category).length
  /-- In the row of lists, those rules are what stands at the category's index. -/
  row_eq : ∀ (s : σ) before category,
    (after (new alphabet s) before).rules.row[category.index]? = some (registered before category)
  /-- A registration, by whatever method, puts its rule at the end of the list at that index. -/
  row_register : ∀ (s : σ) before request category rule,
    request.registration? = some (category, rule) →
    (after (new alphabet s) (before ++ [request])).rules.row
      = (after (new alphabet s) before).rules.row.modify category.index (· ++ [rule])
  /-- Registrations for different categories commute. -/
  commute : ∀ (s : σ) before request request' later category category' rule rule',
    request.registration? = some (category, rule) →
    request'.registration? = some (category', rule') → category ≠ category' →
    after (new alphabet s) (before ++ request :: request' :: later)
      = after (new alphabet s) (before ++ request' :: request :: later)
  /-- The reply to a tokenization is that of the alphabet, of the rules registered before it, and of
      what they remember. -/
  reply_mindful : ∀ (s : σ) before content later,
    (replies (new alphabet s) (before ++ .tokenize content :: later))[before.length]?
      = some ((Session.mk ⟨alphabet, registered before⟩
          (after (new alphabet s) before).memory).handle (.tokenize content)).1
  /-- It is what rules give that vary from turn to turn, as many for each category as were
      registered. -/
  reply_varying : ∀ (s : σ) before content later, ∃ v : Varying, v.alphabet = alphabet
    ∧ (∀ n category, (v.rules n category).length = (registered before category).length)
    ∧ (replies (new alphabet s) (before ++ .tokenize (some content) :: later))[before.length]?
      = some (.tokenized (v.run content).result ((v.run content).events content.length))
  /-- As long as no byte opens its category, a registration changes neither what comes of later
      tokenizations nor what is remembered. -/
  unreached_mindful : ∀ (s : σ) before request later category rule,
    request.registration? = some (category, rule) →
    (∀ q ∈ later, Request.Avoids alphabet category q) →
    outcomes (after (new alphabet s) (before ++ [request])) later
        = outcomes (after (new alphabet s) before) later
      ∧ (after (new alphabet s) (before ++ request :: later)).memory
        = (after (new alphabet s) (before ++ later)).memory
  /-- Neither do rules of that category that vary from turn to turn, among others that do. -/
  unreached_varying : ∀ (v v' : Varying) category content,
    v.alphabet = alphabet → v'.alphabet = alphabet →
    (∀ b ∈ content, alphabet.classify b ≠ some (.opens category)) →
    (∀ n other, other ≠ category → v'.rules n other = v.rules n other) →
    v'.run content = v.run content
  /-- Over memoryless rules that reply is the plain tokenizer's, whatever is in the memory. -/
  reply_eq : ∀ (s s₀ : σ) before content later, (registered before).Memoryless →
    (replies (new alphabet s) (before ++ .tokenize content :: later))[before.length]?
      = some (.tokenized ((Mindful.plain ⟨alphabet, registered before⟩ s₀).tokenize? content)
        ((Mindful.plain ⟨alphabet, registered before⟩ s₀).events content))
  /-- After two histories with the same memoryless rules all replies are the same. -/
  replies_eq : ∀ (s s' : σ) before before' later, registered before' = registered before →
    (registered (before ++ later)).Memoryless →
    replies (after (new alphabet s') before') later = replies (after (new alphabet s) before) later
  /-- A tokenization over memoryless rules, whatever comes of it, leaves no trace in them. -/
  no_trace : ∀ (s : σ) before content later, (registered (before ++ later)).Memoryless →
    replies (after (new alphabet s) (before ++ [.tokenize content])) later
      = replies (after (new alphabet s) before) later
  /-- A registration changes no tokenization of a content in which no byte opens its category, if
      the rules of the other categories are memoryless. -/
  unreached : ∀ (s : σ) before request later category rule content,
    request.registration? = some (category, rule) →
    (∀ other, other ≠ category → ∀ r ∈ registered (before ++ later) other, r.Memoryless) →
    (∀ b ∈ content, alphabet.classify b ≠ some (.opens category)) →
    ((after (new alphabet s) (before ++ request :: later)).handle (.tokenize (some content))).1
      = ((after (new alphabet s) (before ++ later)).handle (.tokenize (some content))).1

/-- **The lists of a session are independent.**  Over any history, a registration by whatever
    method reaches the list of its category only, and registrations for different categories
    commute.  What a tokenization gives depends on its content, the alphabet, the rules registered
    for each category so far, and what these remember.  If they are memoryless it depends on
    nothing else: no tokenization leaves a trace, and a category to which the content does not come
    makes no difference at all. -/
theorem lists_are_independent (σ : Type) (alphabet : Alphabet) : KeepsApart σ alphabet where
  count_eq s before category := by
    rw [Session.toMindful_after]
    rfl
  row_eq s before category := by
    rw [Registry.getElem?_row, Session.toMindful_after]
  row_register s before request category rule hreg := by
    rw [Session.after_append, Session.after_cons, Session.handle_of_registration hreg]
    exact Registry.row_addRule _ category rule
  commute s before request request' later category category' rule rule' hreg hreg' hne := by
    rw [Session.after_append, Session.after_append, Session.after_cons, Session.after_cons,
      Session.after_cons, Session.after_cons, Session.handle_comm hreg hreg' hne]
  reply_mindful s before content later := by
    rw [Session.getElem?_replies, ← Session.toMindful_after alphabet s before]
  reply_varying s before content later := by
    obtain ⟨v, halphabet, hlength, hrun⟩ := Mindful.exists_varying
      (after (new alphabet s) before).toMindful (after (new alphabet s) before).memory content
    rw [Session.toMindful_after] at halphabet hlength
    refine ⟨v, halphabet, hlength, ?_⟩
    rw [Session.getElem?_replies, Session.handle_tokenize, hrun]
  unreached_mindful s before request later category rule hreg havoids := by
    have hagree : Session.AgreeBut category (after (new alphabet s) before)
        (after (new alphabet s) (before ++ [request])) := by
      rw [Session.after_append, Session.after_cons, Session.handle_of_registration hreg]
      exact ⟨rfl, rfl, fun other hother => Registry.addRule_other _ rule hother⟩
    have havoids' : ∀ q ∈ later,
        Request.Avoids (after (new alphabet s) before).alphabet category q := by
      rw [Session.alphabet_after]
      exact havoids
    have hsame := hagree.outcomes_eq havoids'
    rwa [← Session.after_append, ← Session.after_append, List.append_assoc] at hsame
  unreached_varying v v' category content hv hv' hnone hother := by
    refine Varying.run_congr (hv'.trans hv.symm) content
      fun b hb c hclass n => hother n c fun heq => ?_
    rw [hv, heq] at hclass
    exact hnone b hb hclass
  reply_eq s s₀ before content later hmemoryless := by
    have hrules : (after (new alphabet s) before).rules.Memoryless := by
      rwa [Session.toMindful_after]
    rw [Session.getElem?_replies, Session.reply_of_memoryless hrules s₀, Session.toMindful_after]
  replies_eq s s' before before' later hsame hmemoryless :=
    Session.replies_after_congr hsame hmemoryless s s'
  no_trace s before content later hmemoryless := by
    refine Session.replies_after_congr (funext fun category => ?_) hmemoryless s s
    rw [Session.registered_append, Session.registered_cons_of_none rfl]
    exact List.append_nil _
  unreached s before request later category rule content hreg hmemoryless hnone := by
    have halphabet : ∀ requests, (after (new alphabet s) requests).alphabet = alphabet :=
      Session.alphabet_after (new alphabet s)
    have hrules : ∀ other, other ≠ category →
        (after (new alphabet s) (before ++ request :: later)).rules other
          = (after (new alphabet s) (before ++ later)).rules other := by
      intro other hother
      rw [Session.rules_after, Session.rules_after, Session.registered_other hreg hother]
    have hmemoryless' : ∀ other, other ≠ category →
        ∀ r ∈ (after (new alphabet s) (before ++ later)).rules other, r.Memoryless := by
      rwa [Session.toMindful_after]
    exact Session.reply_congr_of_unreached ((halphabet _).trans (halphabet _).symm) hrules
      hmemoryless' ((halphabet _).symm ▸ hnone)

/-- Digits open a number, and the minus is a delimiter. -/
def signs : Alphabet := { numbers := .digits, delimiters := .listed [0x2d] }

/-- The rule with a count of its calls, which makes no difference to what it gives. -/
def counting (rule : Rule) : MindfulRule Nat := fun calls => do
  let token ← rule
  return (token, calls + 1)

theorem memoryless_counting (rule : Rule) : (counting rule).Memoryless := fun _ _ => rfl

/-- A rule for digits that counts, a tokenization of 7 and a minus, and a rule for the minus. -/
def signsHistory : List (Request Nat) :=
  [.lexNumber (counting (Pattern.rule ⟨.number, .single⟩)), .tokenize (some [0x37, 0x2d]),
    .addRule .delimiter (Rule.mindful (Pattern.rule ⟨.delimiter, .single⟩))]

theorem memoryless_signsHistory : (registered signsHistory).Memoryless := by
  intro category rule hrule
  obtain ⟨request, hrequest, hreg⟩ := Session.mem_registered_iff.1 hrule
  simp only [signsHistory, List.mem_cons, List.not_mem_nil, or_false] at hrequest
  obtain rfl | rfl | rfl := hrequest
  · obtain ⟨-, rfl⟩ := Prod.mk.inj (Option.some.inj hreg)
    exact memoryless_counting _
  · exact nomatch hreg
  · obtain ⟨-, rfl⟩ := Prod.mk.inj (Option.some.inj hreg)
    exact Rule.memoryless_mindful _

-- the tokenization fails while there is no rule for the minus; asked for again at the end it gives
-- both tokens; the failure is counted and leaves no trace otherwise; and the reply to a mere 7 is
-- not changed by the rule for the minus
theorem lists_are_independent_signs :
    (∃ events, (replies (new signs 0) signsHistory)[1]?
        = some (.tokenized (.error (.stalled .delimiter ⟨1, 2, 1⟩)) events))
      ∧ (∃ events, (replies (new signs 0) (signsHistory ++ [.tokenize (some [0x37, 0x2d])]))[3]?
        = some (.tokenized (.ok [⟨.number, [0x37]⟩, ⟨.delimiter, [0x2d]⟩]) events))
      ∧ (after (new signs 0) (signsHistory.take 2)).memory = 1
      ∧ replies (after (new signs 0) (signsHistory.take 2)) [.tokenize (some [0x37])]
        = replies (after (new signs 0) (signsHistory.take 1)) [.tokenize (some [0x37])]
      ∧ ((after (new signs 0) signsHistory).handle (.tokenize (some [0x37]))).1
        = ((after (new signs 0) (signsHistory.take 2)).handle (.tokenize (some [0x37]))).1 := by
  have hkept := lists_are_independent Nat signs
  have hparts : (registered (signsHistory.take 1 ++ signsHistory.drop 1)).Memoryless :=
    memoryless_signsHistory
  obtain ⟨hone, -⟩ := Session.memoryless_registered_append_iff.1 hparts
  have hfirst : (Mindful.plain ⟨signs, registered (signsHistory.take 1)⟩ 0).tokenize?
      (some [0x37, 0x2d]) = .error (.stalled .delimiter ⟨1, 2, 1⟩) := by cbv
  have hlast : (Mindful.plain ⟨signs, registered signsHistory⟩ 0).tokenize? (some [0x37, 0x2d])
      = .ok [⟨.number, [0x37]⟩, ⟨.delimiter, [0x2d]⟩] := by cbv
  have hreply :=
    hkept.reply_eq 0 0 (signsHistory.take 1) (some [0x37, 0x2d]) (signsHistory.drop 2) hone
  have hreply' := hkept.reply_eq 0 0 signsHistory (some [0x37, 0x2d]) [] memoryless_signsHistory
  rw [hfirst] at hreply
  rw [hlast] at hreply'
  refine ⟨⟨_, hreply⟩, ⟨_, hreply'⟩, by cbv, ?_, ?_⟩
  · exact hkept.no_trace 0 (signsHistory.take 1) (some [0x37, 0x2d]) [.tokenize (some [0x37])] hone
  · exact hkept.unreached 0 (signsHistory.take 2) _ [] .delimiter _ [0x37] rfl
      (fun other _ => hone other) (by decide +kernel)

/-- The rule of the pattern in its first call, its third and so on; in the calls between them it
    gives a token without bytes and leaves the cursor alone. -/
def everySecond (p : Pattern) : MindfulRule Nat := fun calls => do
  let token ← if calls % 2 = 0 then p.rule else pure { kind := p.kind, value := [] }
  return (token, calls + 1)

/-- A rule for digits that takes every second one, and two tokenizations of 7. -/
def sevens : List (Request Nat) :=
  [.lexNumber (everySecond ⟨.number, .single⟩), .tokenize (some [0x37]), .tokenize (some [0x37])]

/-- A rule that takes every second minus, and perhaps a rule for digits. -/
def minuses (digits : List (Request Nat)) : Session Nat :=
  after (new signs 0) (.lexDelimiter (everySecond ⟨.delimiter, .single⟩) :: digits)

/-- **Rules that remember leave a trace.**  The same rules are registered before both tokenizations
    of 7, and the second one fails.  And a rule for digits changes what comes of a mere minus,
    since it lets an earlier content come to the minus behind its digit. -/
theorem memories_leave_a_trace :
    registered (sevens.take 2) = registered (sevens.take 1)
      ∧ (outcomes (new signs 0) sevens).map (·.1)
        = [.ok [⟨.number, [0x37]⟩], .error (.stalled .number ⟨1, 1, 0⟩)]
      ∧ (outcomes (minuses []) [.tokenize (some [0x37, 0x2d]), .tokenize (some [0x2d])]).map (·.1)
        = [.error (.stalled .number ⟨1, 1, 0⟩), .ok [⟨.delimiter, [0x2d]⟩]]
      ∧ (outcomes (minuses [.lexNumber (Rule.mindful (Pattern.rule ⟨.number, .single⟩))])
          [.tokenize (some [0x37, 0x2d]), .tokenize (some [0x2d])]).map (·.1)
        = [.ok [⟨.number, [0x37]⟩, ⟨.delimiter, [0x2d]⟩],
          .error (.stalled .delimiter ⟨1, 1, 0⟩)] := by
  have hsame : registered (sevens.take 2) = registered (sevens.take 1) := by
    funext category
    exact Session.registered_append (sevens.take 1) [.tokenize (some [0x37])] category
      |>.trans (List.append_nil _)
  exact ⟨hsame, by cbv, by cbv, by cbv⟩

end ByteTokenizer
