import AbnfMatching.Proofs.Consumption
import AbnfMatching.Proofs.GreedyUnfolding
import AbnfMatching.Proofs.LevelBounds
import AbnfMatching.Proofs.Visits

/-!
# Nothing but spans is found

Whatever greedy or exhaustive matching reports as matched belongs to the
language of the element. No assumption is made about left recursion: a visit
that is answered by no ends, and a table entry that came about with the help of
such an answer, can only make the reported ends fewer.
-/

namespace AbnfMatching

/-! ## Greedy matching -/

namespace Greedy

/-- With `room` levels, matching comes to an end and finds this. -/
def Settles (setting : Setting) :
    (room : Nat) → Element × Offset → Option Offset → Prop
  | 0, _, _ => False
  | room + 1, question, found =>
      (inquiry setting question.1 question.2).Yields
        (Settles setting room) found

/-- The trace after an evaluation of which an entry was made. -/
def noted (setting : Setting) (entry : TraceEntry) (trace : Trace) : Trace :=
  if setting.verbose then trace.push entry else trace

theorem perform_note
    {setting : Setting} {entry : TraceEntry} {trace : Trace} :
    perform (note setting entry) trace =
      (.ok (), noted setting entry trace) := by
  unfold note noted
  split <;> rfl

/-- What the inquiry finds is noted and returned. -/
theorem perform_evaluate
    {setting : Setting} {room depth : Nat} {element : Element}
    {offset : Offset} {trace : Trace} :
    perform (evaluate setting (room + 1) depth element offset) trace =
      match perform
        ((inquiry setting element offset).carryOut fun question =>
          evaluate setting room (depth + 1) question.1 question.2) trace with
      | (.ok found, later) =>
          (.ok found, noted setting
            (.evaluation (depth + 1) element offset (.ofEnd offset found))
            later)
      | (.error cause, later) => (.error cause, later) := by
  rw [evaluate, ← carryOut_inquiry, perform_bind]
  generalize perform
    ((inquiry setting element offset).carryOut fun question =>
      evaluate setting room (depth + 1) question.1 question.2) trace =
    performed
  obtain ⟨cause | found, later⟩ := performed
  · rfl
  · dsimp only
    rw [perform_bind, perform_note]
    rfl

/-- A trace entry does not change the outcome of the inquiry. -/
theorem outcome_evaluate
    {setting : Setting} {room depth : Nat} {element : Element}
    {offset : Offset} {trace : Trace} :
    (perform (evaluate setting (room + 1) depth element offset) trace).1 =
      (perform
        ((inquiry setting element offset).carryOut fun question =>
          evaluate setting room (depth + 1) question.1 question.2)
        trace).1 := by
  rw [perform_evaluate]
  generalize perform
    ((inquiry setting element offset).carryOut fun question =>
      evaluate setting room (depth + 1) question.1 question.2) trace =
    performed
  obtain ⟨cause | found, later⟩ := performed
  · rfl
  · rfl

theorem settles_of_evaluate
    {setting : Setting} {room depth : Nat} {element : Element}
    {offset : Offset} (trace : Trace) {found : Option Offset}
    (returned :
      (perform (evaluate setting room depth element offset) trace).1 =
        .ok found) :
    Settles setting room (element, offset) found := by
  induction room generalizing depth element offset trace found with
  | zero =>
      cases returned
  | succ room inductionHypothesis =>
      rw [outcome_evaluate] at returned
      refine (Inquiry.yields_of_carryOut trace returned).mono ?_
      intro question reply given
      obtain ⟨before, answered⟩ := given
      exact inductionHypothesis before answered

theorem Settles.spans
    {setting : Setting} {room : Nat} {element : Element}
    {start stop : Offset}
    (fits : setting.Addressable)
    (inside : start.toNat ≤ setting.input.size)
    (settles : Settles setting room (element, start) (some stop)) :
    Spans setting element start stop := by
  induction room generalizing element start stop with
  | zero =>
      exact settles.elim
  | succ room inductionHypothesis =>
      have unfolds := unfolds_of_inquiry (.root .tested element) settles
      refine spans_of_unfolds fits inside ?_ unfolds
      intro part _ start startInside stop reached
      exact inductionHypothesis startInside reached

theorem run_sound
    {setting : Setting} {limit : Nat} {element : Element}
    {offset stop : Offset}
    (fits : setting.Addressable)
    (inside : offset.toNat ≤ setting.input.size)
    (returned : (run setting limit element offset).1 = .ok (some stop)) :
    Spans setting element offset stop :=
  (settles_of_evaluate #[] returned).spans fits inside

end Greedy

/-! ## Exhaustive matching -/

namespace Exhaustive

/-- Answers contain what a lower bound demands and spans only, provided that the
lower bound is carried by its unfolding and demands nothing of a visit that is
under way. -/
theorem visit_bracketed
    {setting : Setting} {subject : Element} {lower : Reach}
    (ready : List Visit → Occurrence → Offset → Prop)
    (fits : setting.Addressable)
    (placed : ∀ active occurrence offset,
      ready active occurrence offset →
      occurrence.Placed setting.grammar subject)
    (inside : ∀ active occurrence offset,
      ready active occurrence offset →
      offset.toNat ≤ setting.input.size)
    (undemanding : ∀ active occurrence offset,
      ready active occurrence offset →
      occurrence.visitAt offset ∈ active →
      ∀ stop, ¬ lower occurrence offset stop)
    (carried : ∀ occurrence offset stop,
      offset.toNat ≤ setting.input.size →
      lower occurrence offset stop →
      Unfolds setting lower occurrence offset stop)
    (asked : ∀ active occurrence offset question,
      ready active occurrence offset →
      Asks setting occurrence offset question →
      ready (occurrence.visitAt offset :: active) question.1 question.2)
    {room : Nat} {active : List Visit} {occurrence : Occurrence}
    {offset : Offset} (isReady : ready active occurrence offset) :
    Upholds
      (FiledWell setting.grammar subject fun part start =>
        Bracketed setting lower (part, start))
      (visit setting room active occurrence offset)
      (Bracketed setting lower (occurrence, offset)) := by
  refine visit_upholds placed ?_ ?_ isReady
  · intro active part start partReady underWay
    constructor
    · intro stop demanded
      exact absurd demanded
        (undemanding active part start partReady underWay stop)
    · intro stop member
      exact absurd member (Ends.not_mem_none stop)
  · intro active part start partReady _
    have startInside := inside active part start partReady
    refine Inquiry.meets_mono (Inquiry.meets_widen
      (meets_inquiry lower fits startInside)
      fun question => asked active part start question partReady) ?_
    intro ends between
    exact between.mono
      (fun stop => carried part start stop startInside)
      (fun stop spans => spans)

/-- A visit in the input is answered by spans only. -/
theorem visit_sound
    {setting : Setting} {subject : Element} (room : Nat)
    (active : List Visit) {occurrence : Occurrence} {offset : Offset}
    (fits : setting.Addressable)
    (placed : occurrence.Placed setting.grammar subject)
    (inside : offset.toNat ≤ setting.input.size) :
    Upholds
      (FiledWell setting.grammar subject fun part start =>
        Bracketed setting (fun _ _ _ => False) (part, start))
      (visit setting room active occurrence offset)
      (Bracketed setting (fun _ _ _ => False) (occurrence, offset)) := by
  refine visit_bracketed
    (fun _ part start =>
      part.Placed setting.grammar subject ∧
        start.toNat ≤ setting.input.size)
    fits (fun _ _ _ ready => ready.1) (fun _ _ _ ready => ready.2)
    (fun _ _ _ _ _ _ demanded => demanded)
    (fun _ _ _ _ demanded => demanded.elim) ?_ ⟨placed, inside⟩
  intro _ part start question ready asks
  obtain ⟨partPlaced, _⟩ := ready
  exact ⟨partPlaced.below asks.below, asks.inside⟩

theorem run_sound
    {setting : Setting} {limit : Nat} {place : Place} {element : Element}
    {offset : Offset} {ends : Ends}
    (fits : setting.Addressable)
    (holds : place.Holds setting.grammar element)
    (inside : offset.toNat ≤ setting.input.size)
    (returned :
      (run setting limit (place.occurrence element) offset).1 = .ok ends) :
    ∀ stop ∈ ends, Spans setting element offset stop := by
  have upheld := visit_sound limit [] fits holds inside ⟨.empty, #[]⟩
    filedWell_empty
  exact (upheld.2 ends returned).sound

end Exhaustive

/-! ## Reported lengths -/

namespace Conformance

theorem mem_of_farthest?
    {ends : Ends} {stop : Offset} (farthest : ends.farthest? = some stop) :
    stop ∈ ends :=
  List.mem_of_getLast? farthest

/-- What either strategy reports as consumed, and every length that is listed,
belongs to the language of the element, whatever the grammar. -/
theorem reported_consumes
    {options : Options} {grammar : Option Grammar} {element : Element}
    {input : Octets} {offset : Offset} {place : Place}
    (fits : input.length < UInt64.size)
    (holds : place.Holds grammar element)
    (inside : offset.toNat ≤ input.length) :
    (∀ consumed,
      (matchElement options grammar element input offset place).outcome =
        .ok (some consumed) →
      Consumes grammar element input offset.toNat consumed.toNat) ∧
    (∀ lengths,
      (matchLengths options grammar element input offset place).outcome =
        .ok lengths →
      ∀ length ∈ lengths,
        Consumes grammar element input offset.toNat length.toNat) := by
  have addressable := addressable_setting options grammar fits
  have insideSetting :
      offset.toNat ≤ (setting options grammar input).input.size := by
    rw [size_setting]
    exact inside
  have foundSpans : ∀ ends,
      (allEnds options grammar element input offset place).outcome =
        .ok ends →
      ∀ stop ∈ ends,
        Spans (setting options grammar input) element offset stop :=
    fun ends returned =>
      Exhaustive.run_sound addressable holds insideSetting returned
  refine ⟨?_, ?_⟩
  · intro consumed returned
    cases strategy : options.strategy with
    | greedy =>
        rw [outcome_matchElement_greedy strategy] at returned
        obtain ⟨found, greedy, mapped⟩ := map_eq_ok_iff.mp returned
        obtain ⟨stop, rfl, rfl⟩ := Option.map_eq_some_iff.mp mapped
        exact consumes_of_spans
          (Greedy.run_sound addressable insideSetting greedy)
    | exhaustive =>
        rw [outcome_matchElement_exhaustive strategy] at returned
        obtain ⟨ends, found, mapped⟩ := map_eq_ok_iff.mp returned
        obtain ⟨stop, farthest, rfl⟩ := Option.map_eq_some_iff.mp mapped
        exact consumes_of_spans
          (foundSpans ends found stop (mem_of_farthest? farthest))
  · intro lengths returned length member
    rw [outcome_matchLengths] at returned
    obtain ⟨ends, found, rfl⟩ := map_eq_ok_iff.mp returned
    obtain ⟨stop, stopMember, rfl⟩ := List.mem_map.mp member
    exact consumes_of_spans (foundSpans ends found stop stopMember)

/-- The rule `xs = xs "x" / "x"`, which begins with a reference to itself. -/
def growingLeft : Rule :=
  let name := RuleName.ofText "xs"
  let letter := Element.terminal (.caseless (octets "x"))
  ⟨name, .alternation [.sequence [.reference name, letter], letter]⟩

theorem reported_consumes_growingLeft :
    (matchLengths {} (some (.ofRules [growingLeft])) growingLeft.element
      (octets "xx") 0).outcome = .ok [1, 2] ∧
    Consumes (some (.ofRules [growingLeft])) growingLeft.element
      (octets "xx") 0 2 := by
  have returned :
      (matchLengths {} (some (.ofRules [growingLeft])) growingLeft.element
        (octets "xx") 0).outcome = .ok [1, 2] := by
    rfl
  have fits : (octets "xx").length < UInt64.size := by
    decide
  have inside : (0 : Offset).toNat ≤ (octets "xx").length :=
    Nat.zero_le _
  have consumes :=
    (reported_consumes fits Place.holds_tested inside).2 [1, 2] returned 2
  exact ⟨returned, consumes (by decide)⟩

end Conformance

end AbnfMatching
