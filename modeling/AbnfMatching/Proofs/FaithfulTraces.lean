import AbnfMatching.Grammar.Core
import AbnfMatching.Proofs.MatchesInStep
import AbnfMatching.Proofs.NestedTraces

/-!
# Faithful traces

A trace is kept on request only, and the request changes nothing else: whatever
a caller asks for, the answer is the same with and without a trace. The trace
itself is faithful. It has one line for each evaluation that has come to a
result. Its last line belongs to the element under test and states what matching
has come to, and the lines before it nest as the evaluations did.
-/

namespace AbnfMatching

/-- A match that keeps a trace compared with one that keeps none. -/
def traceKept : Likeness :=
  .restricted (· = ·) (fun _ => True) (fun _ => True) fun _ => False

theorem traceKept_relates
    {input : Array UInt8} {grammar : Option Grammar} :
    traceKept.Relates ⟨input, grammar, true⟩ ⟨input, grammar, false⟩ := by
  refine Likeness.relates_restricted rfl biUnique_eq ?_ ?_ ?_
  · exact fun _ _ _ _ => trivial
  · intro name _
    exact agree_self (fun _ _ => ⟨rfl, rfl, trivial⟩)
      fun _ _ => ⟨rfl, trivial⟩
  · exact fun _ _ => trivial

namespace Finding

/-- The finding of a greedy match that is reported to have consumed so many
octets. -/
def ofConsumed : Option UInt64 → Finding
  | some length => matched length
  | none => noMatch

theorem ofEnd_eq_ofConsumed (offset : Offset) (found : Option Offset) :
    ofEnd offset found = ofConsumed (found.map (· - offset)) := by
  cases found with
  | none => rfl
  | some stop => rfl

/-- The words in which a line states a finding. -/
inductive StatedAs : Finding → Octets → Prop
  | matched (length : UInt64) :
      StatedAs (.matched length)
        (octets "matched " ++ decimal length.toNat ++ octets " bytes")
  | noMatch :
      StatedAs .noMatch (octets "no match")
  | endsAt (ends : Ends) :
      StatedAs (.endsAt ends)
        (octets "ends at [" ++
          (octets ", ").intercalate
            (ends.offsets.map fun stop => decimal stop.toNat) ++
          octets "]")

theorem statedAs_text (finding : Finding) : finding.StatedAs finding.text := by
  cases finding with
  | matched length => exact .matched length
  | noMatch => exact .noMatch
  | endsAt ends => exact .endsAt ends

end Finding

namespace Conformance

theorem traceKept_calls
    {options : Options} {grammar : Option Grammar} {input : Octets} :
    traceKept.Calls { options with verbose := true }
      { options with verbose := false } grammar grammar input :=
  ⟨rfl, Or.inl rfl, traceKept_relates⟩

theorem outcome_eq_of_agree
    {α : Type} {left right : Except Fault α}
    (agree : Agree traceKept.faults traceKept.excused (· = ·) left right) :
    left = right :=
  agree.eq (fun _ _ => And.left) fun _ => id

theorem verdict_eq_of_agree
    {left right : Except Failure Unit}
    (agree : Agree (Failure.Alike (· = ·) traceKept.faults)
      (Failure.IsFault traceKept.excused) (· = ·) left right) :
    left = right :=
  agree.eq (fun _ _ alike => alike.eq fun _ _ => And.left)
    (Failure.not_isFault fun _ => id)

/-- A report of one evaluation whose trace can be trusted. If the evaluation
has returned a value, then all entries of its evaluations are there, and the
last line states the finding; if a fault has stopped it, then those that had
been made by then. -/
structure Faithful
    {α : Type} (grammar : Option Grammar) (element : Element)
    (offset : Offset) (finding : α → Finding) (report : Report Fault α) :
    Prop
    extends WellNested grammar 1 element offset finding report.outcome
      report.trace.toList where
  lastLine : ∀ value, report.outcome = .ok value →
    ∃ (earlier : Trace) (words : Octets), (finding value).StatedAs words ∧
      report.trace.text = earlier.text ++
        (octets "  " ++ element.text ++ octets " @" ++
          decimal offset.toNat ++ octets ": " ++ words ++
          [TraceEntry.lineFeed])
  even : EvenlyIndented report.trace.toList

/-- The trace of the one evaluation that an entry point makes. -/
def evaluationTrace
    (options : Options) (grammar : Option Grammar) (element : Element)
    (input : Octets) (offset : Offset) (place : Place) : Trace :=
  match options.strategy with
  | .greedy => (greedyEnd options grammar element input offset).trace
  | .exhaustive => (allEnds options grammar element input offset place).trace

/-- What callers are shown who ask about a rule: the trace of an evaluation,
after a heading if the input is checked as a whole. What a greedy match is
reported to consume is what its trace states. -/
structure Shows
    (options : Options) (grammar : Option Grammar) (rule : Rule) (place : Place)
    (input : Octets) : Prop where
  matched : ∀ offset,
    (matchElement options grammar rule.element input offset place).trace =
      evaluationTrace options grammar rule.element input offset place
  consumed : options.strategy = .greedy → ∀ offset,
    Faithful grammar rule.element offset .ofConsumed
      (matchElement options grammar rule.element input offset place)
  listed : ∀ offset,
    (matchLengths options grammar rule.element input offset place).trace =
      (allEnds options grammar rule.element input offset place).trace
  validated :
    (validate options grammar rule input place).trace =
      #[.heading input rule.name.spelling] ++
        evaluationTrace options grammar rule.element input 0 place
  decided :
    (conforms options grammar rule input place).trace =
      (validate options grammar rule input place).trace

/-- What callers are shown who give the name of a rule: nothing if there is no
such rule. -/
structure ShowsNamed
    (options : Options) (present : Grammar) (name : Octets) (input : Octets) :
    Prop where
  validated : (validateNamed options present name input).trace =
    match present.fetch name with
    | .ok rule =>
        (validate options (some present) rule input (.rule rule.key)).trace
    | .error _ => #[]
  decided : (conformsNamed options present name input).trace =
    (validateNamed options present name input).trace

section Faithful

variable {options : Options} {grammar : Option Grammar} {input : Octets}

/-- A report is faithful if its entries nest. -/
theorem faithful_of_wellNested
    {α : Type} {element : Element} {offset : Offset} {finding : α → Finding}
    {report : Report Fault α}
    (wellNested : WellNested grammar 1 element offset finding report.outcome
      report.trace.toList) :
    Faithful grammar element offset finding report := by
  refine ⟨wellNested, ?_, ?_⟩
  · intro value returned
    obtain ⟨inner, _, isWhole⟩ := wellNested.completed value returned
    refine ⟨inner.toArray, _, (finding value).statedAs_text, ?_⟩
    rw [Trace.text, Trace.text, isWhole, List.flatMap_append,
      List.flatMap_singleton]
    rfl
  · cases outcome : report.outcome with
    | ok value => exact (wellNested.completed value outcome).indented.even
    | error cause => exact (wellNested.interrupted cause outcome).even.1

theorem records_greedyEnd
    (verbose : options.verbose = true) (element : Element) (offset : Offset) :
    Greedy.Records (setting options grammar input) options.limit 0
      (.ask (element, offset) .done)
      (greedyEnd options grammar element input offset).outcome
      (greedyEnd options grammar element input offset).trace.toList :=
  Greedy.run_records verbose element offset

theorem records_allEnds
    (verbose : options.verbose = true) (element : Element) (offset : Offset)
    (place : Place) :
    ∃ later, Exhaustive.Records (setting options grammar input) options.limit
      [] .empty (.ask (place.occurrence element, offset) .done)
      (allEnds options grammar element input offset place).outcome
      (allEnds options grammar element input offset place).trace.toList
      later :=
  ⟨_, Exhaustive.run_records verbose (place.occurrence element) offset⟩

theorem faithful_greedyEnd
    (verbose : options.verbose = true) (element : Element) (offset : Offset) :
    Faithful grammar element offset
      (fun found => .ofConsumed (found.map (· - offset)))
      (greedyEnd options grammar element input offset) := by
  apply faithful_of_wellNested
  simp only [← Finding.ofEnd_eq_ofConsumed]
  exact (records_greedyEnd verbose element offset).wellNested

theorem Faithful.map
    {α β : Type} {element : Element} {offset : Offset}
    {finding : β → Finding} {report : Report Fault α} {change : α → β}
    (faithful : Faithful grammar element offset
      (fun value => finding (change value)) report) :
    Faithful grammar element offset finding
      ⟨report.outcome.map change, report.trace⟩ := by
  apply faithful_of_wellNested
  constructor
  · intro value returned
    obtain ⟨before, isBefore, rfl⟩ := map_eq_ok_iff.mp returned
    exact faithful.completed before isBefore
  · intro cause failed
    exact faithful.interrupted cause (map_eq_error_iff.mp failed)

theorem faithful_matchElement
    (verbose : options.verbose = true) (greedy : options.strategy = .greedy)
    (element : Element) (offset : Offset) (place : Place) :
    Faithful grammar element offset .ofConsumed
      (matchElement options grammar element input offset place) := by
  rw [matchElement, greedy]
  exact (faithful_greedyEnd verbose element offset).map

theorem faithful_allEnds
    (verbose : options.verbose = true) (place : Place) (element : Element)
    (offset : Offset) :
    Faithful grammar element offset .endsAt
      (allEnds options grammar element input offset place) := by
  obtain ⟨_, records⟩ :=
    @records_allEnds options grammar input verbose element offset place
  exact faithful_of_wellNested records.wellNested

theorem trace_matchElement
    {element : Element} {offset : Offset} {place : Place} :
    (matchElement options grammar element input offset place).trace =
      evaluationTrace options grammar element input offset place := by
  unfold matchElement evaluationTrace
  cases options.strategy <;> rfl

theorem trace_validate {rule : Rule} {place : Place} :
    (validate options grammar rule input place).trace =
      headed options input rule.name
        (evaluationTrace options grammar rule.element input 0 place) := by
  unfold validate evaluationTrace
  cases options.strategy <;> rfl

theorem trace_validateNamed {present : Grammar} {name : Octets} :
    (validateNamed options present name input).trace =
      match present.fetch name with
      | .ok rule =>
          (validate options (some present) rule input
            (.rule rule.key)).trace
      | .error _ => #[] := by
  unfold validateNamed
  cases present.fetch name <;> rfl

theorem trace_conformsNamed {present : Grammar} {name : Octets} :
    (conformsNamed options present name input).trace =
      (validateNamed options present name input).trace := by
  unfold conformsNamed validateNamed
  cases present.fetch name <;> rfl

end Faithful

/-- A line end that is checked against its rule. -/
example :
    (validate { verbose := true } none
        (Core.rule "CRLF" (.sequence [Core.single 0x0D, Core.single 0x0A]))
        [0x0D, 0x0A]).trace.text =
      octets "Validating \"\\x0D\\x0A\" (2 bytes) against rule 'CRLF'\n" ++
      octets "    %x0D @0: matched 1 bytes\n" ++
      octets "    %x0A @1: matched 1 bytes\n" ++
      octets "  %x0D %x0A @0: matched 2 bytes\n" := by
  decide +kernel

end Conformance

end AbnfMatching
