import AbnfMatching.Proofs.Calls

/-!
# What stops a match

A match stops with a fault if and only if one of its calls does so of its own:
the call has no level left, or its element cannot be evaluated. The fault is
handed on unchanged from each call to its caller. Which faults a match may stop
with is therefore a question about single calls.
-/

namespace AbnfMatching

open Relation (ReflTransGen)

namespace Inquiry

variable {Question Reply α σ : Type}
  {answer : Question → ExceptT Fault (StateM σ) Reply}
  {inquiry : Inquiry Question Reply α} {state : σ} {cause : Fault}

/-- A question that is put and cannot be answered stops the inquiry. -/
theorem Puts.stops
    {question : Question} {moment : σ}
    (puts : Puts answer inquiry state question moment)
    (failed : (perform (answer question) moment).1 = .error cause) :
    (perform (inquiry.carryOut answer) state).1 = .error cause := by
  induction puts with
  | @now question resume state =>
      rw [carryOut, perform_bind]
      generalize perform (answer question) state = performed at failed
      obtain ⟨result, later⟩ := performed
      cases failed
      rfl
  | later answered _ inductionHypothesis =>
      rw [carryOut, perform_bind, answered]
      exact inductionHypothesis failed

end Inquiry

/-! ## Greedy matching -/

namespace Greedy

section Denies

variable {setting : Setting} {element : Element} {offset : Offset}
  {cause : Fault}

/-- The inquiry of an element that cannot be evaluated is nothing but the
fault. -/
theorem inquiry_of_denies (denies : setting.Denies offset element cause) :
    inquiry setting element offset = .fault cause := by
  cases denies with
  | slice failed =>
      simp only [inquiry, level, failed]
      rfl
  | rule failed =>
      simp only [inquiry, level, failed]
      rfl

end Denies

namespace Call

/-- The call stops of its own: it has no level left, or its element cannot be
evaluated. -/
def Stopped (setting : Setting) (call : Call) (cause : Fault) : Prop :=
  match call.room with
  | 0 => cause = .tooDeep call.depth
  | _ + 1 => setting.Denies call.offset call.element cause

variable {setting : Setting} {call inner : Call} {cause : Fault}

theorem Stopped.outcome (stopped : call.Stopped setting cause) :
    call.outcome setting = .error cause := by
  obtain ⟨room, depth, element, offset, trace⟩ := call
  cases room with
  | zero =>
      cases stopped
      rfl
  | succ room =>
      rw [Call.outcome, outcome_evaluate, inquiry_of_denies stopped]
      rfl

theorem Makes.stops
    (makes : call.Makes setting inner)
    (failed : inner.outcome setting = .error cause) :
    call.outcome setting = .error cause := by
  rw [outcome, makes.room, outcome_evaluate, ← makes.depth]
  exact makes.puts.stops failed

/-- A call stops with a fault if and only if one of the calls that it leads to
does so of its own. -/
theorem outcome_eq_error_iff :
    call.outcome setting = .error cause ↔
      ∃ inner, ReflTransGen (Makes setting) call inner ∧
        inner.Stopped setting cause := by
  constructor
  · -- A call that is made has one level less to spare than its caller, so
    -- following the fault from call to call comes to an end.
    intro failed
    obtain ⟨room, depth, element, offset, trace⟩ := call
    induction room generalizing depth element offset trace with
    | zero =>
        cases failed
        exact ⟨_, .refl, rfl⟩
    | succ room inductionHypothesis =>
        rw [outcome, outcome_evaluate] at failed
        rcases Inquiry.raises_or_puts_of_failed failed with
          raises | ⟨question, moment, puts, fails⟩
        · exact ⟨_, .refl, denies_of_raises raises⟩
        · obtain ⟨inner, calls, stopped⟩ := inductionHypothesis
            (depth + 1) question.1 question.2 moment fails
          exact ⟨inner, .head ⟨rfl, rfl, puts⟩ calls, stopped⟩
  · intro reached
    obtain ⟨inner, calls, stopped⟩ := reached
    induction calls using ReflTransGen.head_induction_on with
    | refl => exact stopped.outcome
    | head makes _ inductionHypothesis => exact makes.stops inductionHypothesis

end Call

end Greedy

/-! ## Exhaustive matching -/

namespace Exhaustive

section Denies

variable {setting : Setting} {occurrence : Occurrence} {offset : Offset}
  {cause : Fault}

theorem inquiry_of_denies
    (denies : setting.Denies offset occurrence.element cause) :
    inquiry setting occurrence offset = .fault cause := by
  obtain ⟨tree, index, element⟩ := occurrence
  cases denies with
  | slice failed =>
      simp only [inquiry, level, failed]
      rfl
  | rule failed =>
      simp only [inquiry, level, failed]
      rfl

end Denies

namespace Call

/-- The call stops of its own: it is fresh and has no level left, or its element
cannot be evaluated. -/
structure Stopped (setting : Setting) (call : Call) (cause : Fault) : Prop
    extends call.Fresh where
  reason :
    match call.room with
    | 0 => cause = .tooDeep call.active.length
    | _ + 1 => setting.Denies call.offset call.occurrence.element cause

variable {setting : Setting} {call inner : Call} {cause : Fault}

theorem Stopped.outcome (stopped : call.Stopped setting cause) :
    call.outcome setting = .error cause := by
  have reason := stopped.reason
  cases levels : call.room with
  | zero =>
      rw [levels] at reason
      rw [reason, Call.outcome, levels,
        perform_visit_zero stopped.unfiled stopped.notUnderWay]
  | succ room =>
      rw [levels] at reason
      rw [stopped.toFresh.outcome_eq levels, inquiry_of_denies reason]
      rfl

theorem Makes.stops
    (makes : call.Makes setting inner)
    (failed : inner.outcome setting = .error cause) :
    call.outcome setting = .error cause := by
  rw [makes.toFresh.outcome_eq makes.room, ← makes.active]
  exact makes.puts.stops failed

/-- A call stops with a fault if and only if one of the calls that it leads to
does so of its own. -/
theorem outcome_eq_error_iff :
    call.outcome setting = .error cause ↔
      ∃ inner, ReflTransGen (Makes setting) call inner ∧
        inner.Stopped setting cause := by
  constructor
  · intro failed
    obtain ⟨room, active, occurrence, offset, memory⟩ := call
    induction room generalizing active occurrence offset memory with
    | zero =>
        obtain ⟨unfiled, notUnderWay⟩ := fresh_of_failed failed
        rw [outcome, perform_visit_zero unfiled notUnderWay] at failed
        cases failed
        exact ⟨_, .refl, ⟨unfiled, notUnderWay⟩, rfl⟩
    | succ room inductionHypothesis =>
        obtain ⟨unfiled, notUnderWay⟩ := fresh_of_failed failed
        rw [Fresh.outcome_eq ⟨unfiled, notUnderWay⟩ rfl] at failed
        rcases Inquiry.raises_or_puts_of_failed failed with
          raises | ⟨question, moment, puts, fails⟩
        · exact ⟨_, .refl, ⟨unfiled, notUnderWay⟩, denies_of_raises raises⟩
        · obtain ⟨inner, calls, stopped⟩ := inductionHypothesis
            (occurrence.visitAt offset :: active) question.1 question.2
            moment fails
          exact ⟨inner, .head ⟨⟨unfiled, notUnderWay⟩, rfl, rfl, puts⟩ calls,
            stopped⟩
  · intro reached
    obtain ⟨inner, calls, stopped⟩ := reached
    induction calls using ReflTransGen.head_induction_on with
    | refl => exact stopped.outcome
    | head makes _ inductionHypothesis => exact makes.stops inductionHypothesis

end Call

end Exhaustive

end AbnfMatching
