import AbnfMatching.Proofs.CoreRules
import AbnfMatching.Proofs.Tokens
import AbnfMatching.Service
import Mathlib.Data.List.TakeWhile

/-!
# The service and the core rules

Callers with raw buffers are offered the grammar of the core rules. For them the
status of a reply says exactly whether the octets belong to the language of a
core rule, whether they begin with a word of it, or neither; the strategy makes
no difference. A message is written whenever the octets do not conform and there
is room for it, cut off to leave room for a zero octet at its end.
-/

namespace AbnfMatching

namespace Service

/-! ## Messages in buffers -/

theorem zero_not_mem_untilZero (bytes : Octets) :
    0 ∉ untilZero bytes := by
  intro member
  have kept := List.mem_takeWhile_imp member
  simp at kept

theorem untilZero_eq_self {bytes : Octets} (zeroFree : 0 ∉ bytes) :
    untilZero bytes = bytes := by
  rw [untilZero, List.takeWhile_eq_self_iff]
  intro octet member
  rw [bne_iff_ne]
  rintro rfl
  exact zeroFree member

theorem zero_not_mem_decimal (count : Nat) :
    0 ∉ decimal count := by
  intro member
  cases isDigit_of_mem_decimal member

/-- As much of a message as there is room for stands in the buffer, and a zero
octet follows. -/
structure Buffer.Holds
    (buffer : Buffer) (capacity : Int) (message : Octets) : Prop where
  size : buffer.contents.length = capacity.toNat
  text : ∃ rest,
    buffer.contents = message.take (capacity.toNat - 1) ++ 0 :: rest

/-- A message without zero octets is held by the buffer that it is written
to. -/
theorem exists_written
    {capacity : Int} {message : Octets}
    (room : 0 < capacity) (zeroFree : 0 ∉ message) :
    ∃ buffer, written capacity message = some buffer ∧
      buffer.Holds capacity message := by
  have shorter : (message.take (capacity.toNat - 1)).length <
      capacity.toNat := by
    have := List.length_take_le (capacity.toNat - 1) message
    omega
  rw [written, if_pos room, untilZero_eq_self zeroFree]
  refine ⟨_, rfl, ?_, ?_⟩
  · rw [Buffer.contents, List.length_append, List.length_replicate]
    exact Nat.add_sub_cancel' (Nat.le_of_lt shorter)
  · obtain ⟨more, zeros⟩ : ∃ more,
        capacity.toNat - (message.take (capacity.toNat - 1)).length =
          more + 1 :=
      Nat.exists_eq_add_one_of_ne_zero (by omega)
    refine ⟨List.replicate more 0, ?_⟩
    rw [Buffer.contents, zeros, List.replicate_succ]

theorem written_eq_none
    {capacity : Int} {message : Octets} (noRoom : capacity ≤ 0) :
    written capacity message = none := by
  rw [written, if_neg (by omega)]

/-! ## What a request comes to -/

/-- The octets that are to be checked. -/
def Request.bytes (request : Request) : Octets :=
  (request.input.getD []).take request.length

/-- The outcome of the same check against the core rules, made by a caller who
can handle failures. -/
def Request.checked (request : Request) (name : Octets) :
    Except Failure Unit :=
  (Conformance.validateNamed
    { strategy := strategyOfCode request.strategy } offered (untilZero name)
    request.bytes).outcome

/-- The request is for a check against the core rule of a name. All octets of
the stated length are there, be it that the input is absent and the length is
zero. -/
structure Request.AsksFor (request : Request) (name : Octets) : Prop where
  grammar : request.grammar = some offered
  named : request.name = some name
  enough : request.length ≤ (request.input.getD []).length
  fits : request.length < UInt64.size

section Requests

variable {request : Request} {name : Octets}

/-- A request with all its arguments is answered by the check. -/
theorem answer_eq (asks : request.AsksFor name) :
    request.answer =
      match request.checked name with
      | .ok () => ⟨.conforming, none⟩
      | .error failure =>
          request.refuse (.ofFailure failure) failure.message := by
  have usable : (request.input.isNone && decide (0 < request.length)) =
      false := by
    cases given : request.input with
    | some input => rfl
    | none =>
        have nothing := asks.enough
        rw [given, Option.getD_none, List.length_nil] at nothing
        simpa using nothing
  rw [Request.answer, asks.grammar, asks.named]
  simp only [usable]
  rfl

/-- The two ways in which a check against the core rules ends: the name is none
of theirs, or the octets are judged by the words that are listed for it. -/
inductive CoreVerdict (name bytes : Octets) : Except Failure Unit → Prop
  | undefinedRule :
      defines (some offered) (some name) = false →
      CoreVerdict name bytes
        (.error (.fault (.undefinedRule (untilZero name))))
  | judged {rule : Rule} {verdict : Except Failure Unit} :
      defines (some offered) (some name) = true →
      offered.fetch (untilZero name) = .ok rule →
      Conformance.Adjudged (some offered) rule bytes verdict →
      CoreVerdict name bytes verdict

theorem Request.AsksFor.bytes_fit (asks : request.AsksFor name) :
    request.bytes.length < UInt64.size :=
  Nat.lt_of_le_of_lt (List.length_take_le _ _) asks.fits

theorem checked_coreVerdict (asks : request.AsksFor name) :
    CoreVerdict name request.bytes (request.checked name) := by
  rw [Request.checked]
  cases found : offered.lookup? (untilZero name) with
  | none =>
      have unknown : offered.fetch (untilZero name) =
          .error (.undefinedRule (untilZero name)) := by
        rw [Grammar.fetch, found]
      rw [Conformance.validateNamed, unknown]
      exact .undefinedRule (by rw [defines, Grammar.defines, found]; rfl)
  | some rule =>
      have known : offered.fetch (untilZero name) = .ok rule := by
        rw [Grammar.fetch, found]
      exact .judged (by rw [defines, Grammar.defines, found]; rfl) known
        (Conformance.validateNamed_core_adjudged asks.bytes_fit (Nat.le_refl _)
          known)

/-- Nothing but the name and the octets has a part in the verdict. -/
theorem CoreVerdict.unique
    {bytes : Octets} {verdict verdict' : Except Failure Unit}
    (comes : CoreVerdict name bytes verdict)
    (comes' : CoreVerdict name bytes verdict') :
    verdict = verdict' := by
  cases comes with
  | undefinedRule missing =>
      cases comes' with
      | undefinedRule _ => rfl
      | judged defined _ _ => exact absurd defined (by simp [missing])
  | judged defined known adjudged =>
      cases comes' with
      | undefinedRule missing => exact absurd defined (by simp [missing])
      | judged _ known' adjudged' =>
          obtain rfl := Except.ok.inj (known.symm.trans known')
          obtain ⟨width, fixed⟩ :=
            Core.exists_fixedWidth (Grammar.mem_of_fetch_core known).1
          exact adjudged.unique fixed adjudged'

end Requests

/-! ## Statuses -/

theorem Status.ofFailure_ne_conforming {failure : Failure} :
    ofFailure failure ≠ conforming := by
  rcases failure with (_ | _) | (_ | _ | _ | _) <;> simp [ofFailure]

def Status.ofVerdict : Except Failure Unit → Status
  | .ok () => conforming
  | .error failure => ofFailure failure

/-- What the status of a reply has to say about octets that were to be checked
against the core rule of a name, be it spelled in capitals or not. -/
structure Status.Tells (status : Status) (name bytes : Octets) : Prop where
  undefinedRule :
    defines (some offered) (some name) = false ↔ status = .undefinedRule
  conforming : defines (some offered) (some name) = true →
    (status = .conforming ↔
      Core.hasWord (foldCase (untilZero name)) bytes = true)
  incomplete : defines (some offered) (some name) = true →
    (status = .incomplete ↔
      Core.BeginsWithWord (foldCase (untilZero name)) bytes)
  mismatch : defines (some offered) (some name) = true →
    (status = .mismatch ↔
      Core.hasWord (foldCase (untilZero name)) bytes = false ∧
        ¬ Core.BeginsWithWord (foldCase (untilZero name)) bytes)
  neverUnsupported : status ≠ .unsupported
  neverTooDeep : status ≠ .tooDeep
  neverUnusable : status ≠ .unusable

section Statuses

variable {name bytes : Octets} {verdict : Except Failure Unit}

/-- The words of a rule that is found are those that are listed for the name by
which it was asked for. -/
theorem derives_iff_hasWord_of_fetch
    {rule : Rule} {word : Octets}
    (known : offered.fetch (untilZero name) = .ok rule) :
    Derives (some offered) rule.element word ↔
      Core.hasWord (foldCase (untilZero name)) word = true := by
  obtain ⟨member, keyed⟩ := Grammar.mem_of_fetch_core known
  rw [← keyed]
  exact Core.derives_iff_hasWord member

/-- What is known of the octets by the verdict on them decides which status is
right. -/
theorem Status.tells_of_judged
    {rule : Rule}
    (defined : defines (some offered) (some name) = true)
    (known : offered.fetch (untilZero name) = .ok rule)
    (adjudged : Conformance.Adjudged (some offered) rule bytes verdict) :
    (Status.ofVerdict verdict).Tells name bytes := by
  have isWord : ∀ word, Derives (some offered) rule.element word ↔
      Core.hasWord (foldCase (untilZero name)) word = true :=
    fun _ => derives_iff_hasWord_of_fetch known
  cases adjudged with
  | conforming derives =>
      have whole := (isWord bytes).mp derives
      have noPart := Core.not_beginsWithWord_of_hasWord whole
      constructor <;> simp [ofVerdict, defined, whole, noPart]
  | @incomplete front begins shorter derives =>
      have frontIsWord := (isWord front).mp derives
      have part : Core.BeginsWithWord (foldCase (untilZero name)) bytes := by
        refine ⟨front, begins, Core.ne_nil_of_hasWord frontIsWord, ?_,
          frontIsWord⟩
        rintro rfl
        exact Nat.lt_irrefl _ shorter
      have notWhole : Core.hasWord (foldCase (untilZero name)) bytes =
          false := by
        rw [Bool.eq_false_iff]
        intro whole
        exact Core.not_beginsWithWord_of_hasWord whole part
      constructor <;> simp [ofVerdict, ofFailure, defined, part, notWhole]
  | mismatch denies =>
      have noPart :
          ¬ Core.BeginsWithWord (foldCase (untilZero name)) bytes := by
        rintro ⟨front, begins, _, _, frontIsWord⟩
        exact denies front begins ((isWord front).mpr frontIsWord)
      have notWhole : Core.hasWord (foldCase (untilZero name)) bytes =
          false := by
        rw [Bool.eq_false_iff]
        intro whole
        exact denies bytes List.prefix_rfl ((isWord bytes).mpr whole)
      constructor <;> simp [ofVerdict, ofFailure, defined, noPart, notWhole]

theorem CoreVerdict.tells (comes : CoreVerdict name bytes verdict) :
    (Status.ofVerdict verdict).Tells name bytes := by
  cases comes with
  | undefinedRule missing =>
      constructor <;> simp [Status.ofVerdict, Status.ofFailure, missing]
  | judged defined known adjudged =>
      exact Status.tells_of_judged defined known adjudged

end Statuses

/-! ## Replies -/

/-- The message that goes with a status. A rule is named in its own spelling, or
as it was asked for if it is undefined. What is consumed of octets that do not
conform as a whole is the word that they begin with. -/
inductive Status.Says (name bytes : Octets) : Status → Octets → Prop
  | undefinedRule :
      Says name bytes .undefinedRule
        (octets "Undefined rule '" ++ untilZero name ++ octets "'")
  | mismatch {rule : Rule} :
      offered.fetch (untilZero name) = .ok rule →
      Says name bytes .mismatch
        (octets "Input does not match rule '" ++ rule.name.spelling ++
          octets "'")
  | incomplete {rule : Rule} {front : Octets} :
      offered.fetch (untilZero name) = .ok rule →
      front <+: bytes →
      Core.hasWord (foldCase (untilZero name)) front = true →
      Says name bytes .incomplete
        (octets "Incomplete match for rule '" ++ rule.name.spelling ++
          octets "': consumed " ++ decimal front.length ++ octets " of " ++
          decimal bytes.length ++ octets " bytes")

theorem CoreVerdict.says
    {name bytes : Octets} {failure : Failure}
    (fits : bytes.length < UInt64.size)
    (comes : CoreVerdict name bytes (.error failure)) :
    (Status.ofFailure failure).Says name bytes failure.message := by
  cases comes with
  | undefinedRule _ =>
      exact .undefinedRule
  | judged _ known adjudged =>
      cases adjudged with
      | @incomplete front begins shorter derives =>
          have frontFits := Nat.lt_trans shorter fits
          rw [Failure.message, Rejection.message,
            UInt64.toNat_ofNat_of_lt' frontFits,
            UInt64.toNat_ofNat_of_lt' fits]
          exact .incomplete known begins
            ((derives_iff_hasWord_of_fetch known).mp derives)
      | mismatch _ =>
          exact .mismatch known

theorem CoreVerdict.zero_not_mem_message
    {name bytes : Octets} {failure : Failure}
    (comes : CoreVerdict name bytes (.error failure)) :
    0 ∉ failure.message := by
  have spelled : ∀ rule ∈ Core.rules, 0 ∉ rule.name.spelling := by
    decide
  have texts : 0 ∉ octets "Undefined rule '" ∧ 0 ∉ octets "'" ∧
      0 ∉ octets "Input does not match rule '" ∧
      0 ∉ octets "Incomplete match for rule '" ∧
      0 ∉ octets "': consumed " ∧ 0 ∉ octets " of " ∧
      0 ∉ octets " bytes" := by
    decide
  cases comes with
  | undefinedRule _ =>
      simp [Failure.message, Fault.message, texts, zero_not_mem_untilZero]
  | judged _ known adjudged =>
      have plain := spelled _ (Grammar.mem_of_fetch_core known).1
      cases adjudged with
      | incomplete _ _ _ =>
          simp [Failure.message, Rejection.message, texts, plain,
            zero_not_mem_decimal]
      | mismatch _ =>
          simp [Failure.message, Rejection.message, texts, plain]

/-- What a reply to a request for a check against a core rule has to be like:
its status is right, whatever the number of the strategy; nothing is written if
the octets conform or if there is no room; and otherwise the buffer holds the
message of the failure, which is the one that goes with the status. -/
structure Request.Served (request : Request) (name : Octets) : Prop where
  defined : defines (some offered) (some name) = true ↔
    foldCase (untilZero name) ∈ Core.names
  status : request.answer.status.Tells name request.bytes
  anyStrategy : ∀ code,
    { request with strategy := code }.answer = request.answer
  silent :
    request.answer.status = .conforming ∨
      (∀ capacity, request.capacity = some capacity → capacity ≤ 0) →
    request.answer.buffer = none
  message : ∀ capacity,
    request.answer.status ≠ .conforming →
    request.capacity = some capacity → 0 < capacity →
    ∃ failure buffer, request.checked name = .error failure ∧
      request.answer.status.Says name request.bytes failure.message ∧
      request.answer.buffer = some buffer ∧
      buffer.Holds capacity failure.message

section Replies

variable {request : Request} {name : Octets}

theorem status_answer (asks : request.AsksFor name) :
    request.answer.status = Status.ofVerdict (request.checked name) := by
  rw [answer_eq asks]
  cases request.checked name <;> rfl

theorem buffer_answer_of_ok
    (asks : request.AsksFor name)
    (conforms : request.checked name = .ok ()) :
    request.answer.buffer = none := by
  rw [answer_eq asks, conforms]

theorem buffer_answer_of_error
    {failure : Failure} (asks : request.AsksFor name)
    (fails : request.checked name = .error failure) :
    request.answer.buffer =
      request.capacity.bind fun capacity =>
        written capacity failure.message := by
  rw [answer_eq asks, fails]
  rfl

end Replies

/-- Every request for a check against a core rule is served: the octets may be
any that there are room for, and absent if there are none; the name, the number
of the strategy and the size of the buffer may be any. -/
theorem core_requests_served
    (request : Request) (name : Octets) (asks : request.AsksFor name) :
    request.Served name := by
  have comes : CoreVerdict name request.bytes (request.checked name) :=
    checked_coreVerdict asks
  refine ⟨Grammar.defines_core_iff, ?_, ?_, ?_, ?_⟩
  · rw [status_answer asks]
    exact comes.tells
  · intro code
    have asks' : Request.AsksFor { request with strategy := code } name :=
      ⟨asks.grammar, asks.named, asks.enough, asks.fits⟩
    have sameVerdict :
        { request with strategy := code }.checked name =
          request.checked name :=
      (checked_coreVerdict asks').unique comes
    rw [answer_eq asks', answer_eq asks, sameVerdict]
    rfl
  · intro quiet
    rcases outcome : request.checked name with failure | _
    · rw [buffer_answer_of_error asks outcome]
      rcases quiet with conforms | noRoom
      · rw [status_answer asks, outcome] at conforms
        exact absurd conforms Status.ofFailure_ne_conforming
      · cases given : request.capacity with
        | none => rfl
        | some capacity => exact written_eq_none (noRoom capacity given)
    · exact buffer_answer_of_ok asks outcome
  · intro capacity refused given room
    rcases outcome : request.checked name with failure | _
    · rw [outcome] at comes
      obtain ⟨buffer, isWritten, holds⟩ :=
        exists_written room comes.zero_not_mem_message
      refine ⟨failure, buffer, rfl, ?_, ?_, holds⟩
      · rw [status_answer asks, outcome]
        exact comes.says asks.bytes_fit
      · rw [buffer_answer_of_error asks outcome, given]
        exact isWritten
    · rw [status_answer asks, outcome] at refused
      exact absurd rfl refused

/-- A request with room for seven octets of a message. The name ends at its zero
octet, only two of the three octets of the input count, and no strategy has the
number seven. -/
def shortOfRoom : Request where
  grammar := some offered
  name := some (octets "dIgIt" ++ [0x00, 0x21])
  input := some (octets "12!")
  length := 2
  strategy := 7
  capacity := some 8

/-- One digit out of two is a word of `DIGIT`, so the match is incomplete. -/
theorem core_requests_served_shortOfRoom :
    shortOfRoom.AsksFor (octets "dIgIt" ++ [0x00, 0x21]) ∧
    shortOfRoom.Served (octets "dIgIt" ++ [0x00, 0x21]) ∧
    shortOfRoom.answer.status = .incomplete ∧
    shortOfRoom.answer.buffer = some ⟨octets "Incompl", 1⟩ := by
  have asks : shortOfRoom.AsksFor (octets "dIgIt" ++ [0x00, 0x21]) :=
    ⟨rfl, rfl, by decide, by decide⟩
  have served := core_requests_served shortOfRoom _ asks
  have defined : defines (some offered)
      (some (octets "dIgIt" ++ [0x00, 0x21])) = true := by
    decide
  have part : Core.BeginsWithWord
      (foldCase (untilZero (octets "dIgIt" ++ [0x00, 0x21])))
      shortOfRoom.bytes := by
    exact ⟨octets "1", by decide, by decide, by decide, by decide⟩
  refine ⟨asks, served, (served.status.incomplete defined).mpr part, ?_⟩
  rfl

end Service

end AbnfMatching
