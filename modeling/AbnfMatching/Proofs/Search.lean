import AbnfMatching.Proofs.LevelBounds
import AbnfMatching.Proofs.Soundness

/-!
# Searching without a table

A search that never makes a visit within itself finds an end if the occurrences
below lead to it, each found in its turn with one more visit to avoid. What
greedy matching finds can be found in this way: a match that is settled with as
few levels as possible does not come across itself.
-/

namespace AbnfMatching

/-- What a search of limited depth finds if it stays clear of the avoided visits
and of the visits that it is making. -/
def Finds (setting : Setting) : (depth : Nat) → (avoided : List Visit) → Reach
  | 0, _ => fun _ _ _ => False
  | depth + 1, avoided => fun occurrence start stop =>
      occurrence.visitAt start ∉ avoided ∧
        Unfolds setting
          (Finds setting depth (occurrence.visitAt start :: avoided))
          occurrence start stop

section Finds

variable {setting : Setting} {depth : Nat} {avoided : List Visit}
  {occurrence : Occurrence} {start stop : Offset}

theorem Finds.not_avoided
    (finds : Finds setting depth avoided occurrence start stop) :
    occurrence.visitAt start ∉ avoided := by
  cases depth with
  | zero => exact finds.elim
  | succ depth => exact finds.1

theorem Finds.deeper
    (finds : Finds setting depth avoided occurrence start stop) :
    Finds setting (depth + 1) avoided occurrence start stop := by
  induction depth generalizing avoided occurrence start stop with
  | zero =>
      exact finds.elim
  | succ depth inductionHypothesis =>
      obtain ⟨fresh, unfolds⟩ := finds
      refine ⟨fresh, unfolds.widen ?_⟩
      intro part _ begin partStop reached
      exact inductionHypothesis reached

end Finds

namespace Greedy

variable {setting : Setting} {room : Nat} {question : Element × Offset}

theorem Settles.deeper
    {found : Option Offset}
    (settles : Settles setting room question found) :
    Settles setting (room + 1) question found := by
  induction room generalizing question found with
  | zero =>
      exact settles.elim
  | succ room inductionHypothesis =>
      exact Inquiry.Yields.mono settles
        fun _ _ answered => inductionHypothesis answered

/-- More levels do not change what is found. -/
theorem Settles.unique
    {room' : Nat} {found found' : Option Offset}
    (first : Settles setting room question found)
    (second : Settles setting room' question found') :
    found = found' := by
  induction room generalizing room' question found found' with
  | zero =>
      exact first.elim
  | succ room inductionHypothesis =>
      cases room' with
      | zero =>
          exact second.elim
      | succ room' =>
          refine Inquiry.Yields.unique ?_ first second
          intro part reply reply' answered answered'
          exact inductionHypothesis answered answered'

section Verbose

variable {input : Array UInt8} {grammar : Option Grammar}
  {verbose verbose' : Bool}

theorem again_verbose
    {m : Type → Type} [Monad m] {item : Offset → m (Option Offset)}
    {rounds owed : Nat} {offset : Offset} :
    again ⟨input, grammar, verbose⟩ item rounds owed offset =
      again ⟨input, grammar, verbose'⟩ item rounds owed offset := by
  induction rounds generalizing owed offset with
  | zero => rfl
  | succ rounds inductionHypothesis =>
      simp only [again, inductionHypothesis]

theorem inquiry_verbose {element : Element} {offset : Offset} :
    inquiry ⟨input, grammar, verbose⟩ element offset =
      inquiry ⟨input, grammar, verbose'⟩ element offset := by
  cases element with
  | repetition bounds body => exact again_verbose
  | _ => rfl

/-- Whether a trace is wanted does not matter to what is found. -/
theorem Settles.of_verbose
    {found : Option Offset}
    (settles : Settles ⟨input, grammar, verbose⟩ room question found) :
    Settles ⟨input, grammar, verbose'⟩ room question found := by
  induction room generalizing question found with
  | zero =>
      exact settles.elim
  | succ room inductionHypothesis =>
      unfold Settles at settles ⊢
      rw [inquiry_verbose]
      exact settles.mono fun _ _ answered => inductionHypothesis answered

end Verbose

/-- What is settled is what matching with as many levels returns. -/
theorem evaluate_of_settles
    {found : Option Offset} {depth : Nat} {trace : Trace}
    (settles : Settles setting room question found) :
    (perform (evaluate setting room depth question.1 question.2) trace).1 =
      .ok found := by
  induction room generalizing question found depth trace with
  | zero =>
      exact settles.elim
  | succ room inductionHypothesis =>
      rw [outcome_evaluate]
      apply Inquiry.carryOut_of_yields _ settles
      intro part reply later answered
      exact inductionHypothesis answered

/-- A settled match can be found without the visits at which greedy matching
does not succeed with as many levels. Either fewer levels settle it as well, or
the match itself does not succeed with fewer levels and therefore joins the
visits that can be avoided. -/
theorem Settles.finds
    {subject : Element} {avoided : List Visit} {occurrence : Occurrence}
    {start stop : Offset}
    (placed : occurrence.Placed setting.grammar subject)
    (settles : Settles setting room (occurrence.element, start) (some stop))
    (avoidable : ∀ (outer : Occurrence) (begin : Offset),
      outer.Placed setting.grammar subject →
      outer.visitAt begin ∈ avoided →
      ∀ stop, ¬ Settles setting room (outer.element, begin) (some stop)) :
    Finds setting room avoided occurrence start stop := by
  induction room generalizing avoided occurrence start stop with
  | zero =>
      exact settles.elim
  | succ room inductionHypothesis =>
      have avoidableBelow : ∀ (outer : Occurrence) (begin : Offset),
          outer.Placed setting.grammar subject →
          outer.visitAt begin ∈ avoided →
          ∀ stop,
            ¬ Settles setting room (outer.element, begin) (some stop) := by
        intro outer begin outerPlaced member outerStop settled
        exact avoidable outer begin outerPlaced member outerStop
          settled.deeper
      -- If fewer levels settle the match, the search for them serves. If not,
      -- the visit cannot succeed again below itself, and may be avoided there.
      by_cases earlier :
          Settles setting room (occurrence.element, start) (some stop)
      · exact (inductionHypothesis placed earlier avoidableBelow).deeper
      · refine ⟨?_, ?_⟩
        · intro member
          exact avoidable occurrence start placed member stop settles
        · refine (unfolds_of_inquiry occurrence settles).widen ?_
          intro part below begin partStop reached
          apply inductionHypothesis (placed.below below) reached
          intro outer outerStart outerPlaced member outerStop settled
          rcases List.mem_cons.mp member with same | outside
          · obtain ⟨rfl, rfl⟩ := outerPlaced.unique_of_visitAt placed same
            have sameStop := settles.unique settled.deeper
            rw [← sameStop] at settled
            exact earlier settled
          · exact avoidableBelow outer outerStart outerPlaced outside
              outerStop settled

end Greedy

end AbnfMatching
