import AbnfMatching.Matching.Exhaustive
import AbnfMatching.Matching.Greedy

/-!
# Evaluations as inquiries

Evaluating one element comes down to questions about the elements below it. An
inquiry is such an evaluation with its questions left open. Greedy and
exhaustive matching carry out the inquiries of `Greedy.level` and
`Exhaustive.level`; they differ in how they answer and in what they remember
meanwhile. Facts about an inquiry are therefore proved once and hold however it
is carried out.
-/

namespace AbnfMatching

/-- An evaluation that asks one question after the other, each depending on the
replies so far, and ends with a value or a fault. -/
inductive Inquiry (Question Reply α : Type) : Type where
  | done (value : α)
  | fault (cause : Fault)
  | ask (question : Question) (resume : Reply → Inquiry Question Reply α)

/-- Run a computation that may fail from a state. -/
def perform {σ α : Type}
    (computation : ExceptT Fault (StateM σ) α) (state : σ) :
    Except Fault α × σ :=
  (computation.run.run state).run

section Perform

variable {σ α β : Type}

@[simp]
theorem perform_pure (value : α) (state : σ) :
    perform (pure value) state = (.ok value, state) :=
  rfl

theorem perform_bind
    (computation : ExceptT Fault (StateM σ) α)
    (next : α → ExceptT Fault (StateM σ) β) (state : σ) :
    perform (computation >>= next) state =
      match perform computation state with
      | (.ok value, later) => perform (next value) later
      | (.error cause, later) => (.error cause, later) := by
  unfold perform ExceptT.run StateT.run Id.run
  simp only [bind, ExceptT.bind, ExceptT.mk, StateT.bind, ExceptT.bindCont]
  cases computation state with
  | mk result later =>
      cases result <;> rfl

end Perform

namespace Inquiry

variable {Question Reply α β σ : Type}

/-- Go on with another inquiry that depends on the value. -/
def bind :
    Inquiry Question Reply α → (α → Inquiry Question Reply β) →
      Inquiry Question Reply β
  | done value, next => next value
  | fault cause, _ => fault cause
  | ask question resume, next =>
      ask question fun reply => (resume reply).bind next

instance : Monad (Inquiry Question Reply) where
  pure := done
  bind := bind

instance : MonadLift (Except Fault) (Inquiry Question Reply) where
  monadLift
    | .ok value => done value
    | .error cause => fault cause

/-- Carry out an inquiry by answering its questions. -/
def carryOut (answer : Question → ExceptT Fault (StateM σ) Reply) :
    Inquiry Question Reply α → ExceptT Fault (StateM σ) α
  | done value => pure value
  | fault cause => throw cause
  | ask question resume => do
      let reply ← answer question
      carryOut answer (resume reply)

section CarryOut

variable (answer : Question → ExceptT Fault (StateM σ) Reply)

@[simp]
theorem carryOut_pure (value : α) :
    carryOut answer (pure value) = pure value :=
  rfl

@[simp]
theorem carryOut_question (question : Question) :
    carryOut answer (ask question pure) = answer question := by
  simp [carryOut]

@[simp]
theorem carryOut_lift (result : Except Fault α) :
    carryOut answer (liftM result) = liftM result := by
  cases result <;> rfl

@[simp]
theorem carryOut_bind
    (inquiry : Inquiry Question Reply α)
    (next : α → Inquiry Question Reply β) :
    carryOut answer (inquiry >>= next) =
      carryOut answer inquiry >>= fun value =>
        carryOut answer (next value) := by
  induction inquiry with
  | done value =>
      change carryOut answer (next value) =
        (pure value : ExceptT Fault (StateM σ) α) >>= _
      rw [pure_bind]
  | fault cause =>
      rfl
  | ask question resume inductionHypothesis =>
      change (answer question >>= fun reply =>
          carryOut answer (resume reply >>= next)) =
        (answer question >>= fun reply =>
          carryOut answer (resume reply)) >>= _
      rw [bind_assoc]
      simp only [inductionHypothesis]

end CarryOut

end Inquiry

/-! ## The inquiry of exhaustive matching -/

namespace Exhaustive

variable {Question σ : Type}

section CarryOut

variable (answer : Question → ExceptT Fault (StateM σ) Ends)

theorem carryOut_fromAny
    (item : Offset → Inquiry Question Ends Ends) (starts : List Offset) :
    (fromAny item starts).carryOut answer =
      fromAny (fun start => (item start).carryOut answer) starts := by
  induction starts with
  | nil =>
      rfl
  | cons head tail inductionHypothesis =>
      simp [fromAny, inductionHypothesis]

theorem carryOut_inTurn
    (item : Occurrence → Offset → Inquiry Question Ends Ends)
    (occurrences : List Occurrence) (current : Ends) :
    (inTurn item occurrences current).carryOut answer =
      inTurn (fun below start => (item below start).carryOut answer)
        occurrences current := by
  induction occurrences generalizing current with
  | nil =>
      rfl
  | cons head tail inductionHypothesis =>
      rw [inTurn, inTurn]
      split
      · rfl
      · simp [inductionHypothesis, carryOut_fromAny]

theorem carryOut_anyOf
    (item : Occurrence → Offset → Inquiry Question Ends Ends)
    (occurrences : List Occurrence) (offset : Offset) :
    (anyOf item occurrences offset).carryOut answer =
      anyOf (fun below start => (item below start).carryOut answer)
        occurrences offset := by
  induction occurrences with
  | nil =>
      rfl
  | cons head tail inductionHypothesis =>
      simp [anyOf, inductionHypothesis]

theorem carryOut_advance
    (item : Offset → Inquiry Question Ends Ends)
    (rounds : Nat) (frontier : Ends) :
    (advance item rounds frontier).carryOut answer =
      advance (fun start => (item start).carryOut answer)
        rounds frontier := by
  induction rounds generalizing frontier with
  | zero =>
      rfl
  | succ rounds inductionHypothesis =>
      rw [advance, advance]
      split
      · rfl
      · simp [inductionHypothesis, carryOut_fromAny]

theorem carryOut_extend
    (item : Offset → Inquiry Question Ends Ends)
    (left : Option Nat) (accepted frontier : Ends) :
    (extend item left accepted frontier).carryOut answer =
      extend (fun start => (item start).carryOut answer)
        left accepted frontier := by
  induction left, accepted, frontier using extend.induct with
  | case1 accepted frontier =>
      simp
  | case2 left accepted frontier roundsLeft inductionHypothesis =>
      rw [extend_round roundsLeft, extend_round roundsLeft,
        Inquiry.carryOut_bind, carryOut_fromAny]
      congr 1
      funext next
      by_cases settled : accepted.union next = accepted
      · simp [settled]
      · simp [settled, inductionHypothesis next settled]

theorem carryOut_level
    (setting : Setting)
    (below : Occurrence → Offset → Inquiry Question Ends Ends)
    (occurrence : Occurrence) (offset : Offset) :
    (level setting below occurrence offset).carryOut answer =
      level setting (fun part start => (below part start).carryOut answer)
        occurrence offset := by
  unfold level
  cases occurrence.element with
  | terminal value =>
      simp only [Inquiry.carryOut_bind, Inquiry.carryOut_lift]
      congr 1
      funext found
      cases found <;> rfl
  | reference name =>
      simp
  | sequence parts =>
      exact carryOut_inTurn answer below occurrence.children _
  | alternation branches =>
      exact carryOut_anyOf answer below occurrence.children offset
  | option body =>
      simp
  | repetition bounds body =>
      simp [carryOut_advance, carryOut_extend]

end CarryOut

/-- What evaluating an occurrence at an offset asks for: visits of occurrences
at offsets. -/
def inquiry (setting : Setting) (occurrence : Occurrence) (offset : Offset) :
    Inquiry (Occurrence × Offset) Ends Ends :=
  level setting (fun part start => .ask (part, start) pure)
    occurrence offset

/-- Answering the questions of the inquiry is evaluating the occurrence. -/
theorem carryOut_inquiry
    (below : Occurrence → Offset → ExceptT Fault (StateM σ) Ends)
    (setting : Setting) (occurrence : Occurrence) (offset : Offset) :
    (inquiry setting occurrence offset).carryOut
        (fun question => below question.1 question.2) =
      level setting below occurrence offset := by
  rw [inquiry, carryOut_level]
  simp

end Exhaustive

/-! ## The inquiry of greedy matching -/

namespace Greedy

variable {Question σ : Type}

section CarryOut

variable (answer : Question → ExceptT Fault (StateM σ) (Option Offset))

theorem carryOut_inTurn
    (item : Element → Offset → Inquiry Question (Option Offset) (Option Offset))
    (elements : List Element) (offset : Offset) :
    (inTurn item elements offset).carryOut answer =
      inTurn (fun part start => (item part start).carryOut answer)
        elements offset := by
  induction elements generalizing offset with
  | nil =>
      rfl
  | cons head tail inductionHypothesis =>
      rw [inTurn, inTurn, Inquiry.carryOut_bind]
      congr 1
      funext found
      cases found with
      | none => rfl
      | some stop => exact inductionHypothesis stop

theorem carryOut_firstOf
    (item : Element → Offset → Inquiry Question (Option Offset) (Option Offset))
    (elements : List Element) (offset : Offset) :
    (firstOf item elements offset).carryOut answer =
      firstOf (fun part start => (item part start).carryOut answer)
        elements offset := by
  induction elements with
  | nil =>
      rfl
  | cons head tail inductionHypothesis =>
      rw [firstOf, firstOf, Inquiry.carryOut_bind]
      congr 1
      funext found
      cases found with
      | none => exact inductionHypothesis
      | some stop => rfl

theorem carryOut_again
    (setting : Setting)
    (item : Offset → Inquiry Question (Option Offset) (Option Offset))
    (rounds owed : Nat) (offset : Offset) :
    (again setting item rounds owed offset).carryOut answer =
      again setting (fun start => (item start).carryOut answer)
        rounds owed offset := by
  induction rounds generalizing owed offset with
  | zero =>
      rfl
  | succ rounds inductionHypothesis =>
      rw [again, again, Inquiry.carryOut_bind]
      congr 1
      funext found
      cases found with
      | none =>
          rfl
      | some stop =>
          by_cases atEnd : setting.input.size ≤ stop.toNat
          · simp [atEnd]
          · by_cases same : stop = offset
            · subst same
              simp [atEnd]
            · simp [atEnd, same, inductionHypothesis]

theorem carryOut_level
    (setting : Setting)
    (below : Element → Offset →
      Inquiry Question (Option Offset) (Option Offset))
    (element : Element) (offset : Offset) :
    (level setting below element offset).carryOut answer =
      level setting (fun part start => (below part start).carryOut answer)
        element offset := by
  unfold level
  cases element with
  | terminal value =>
      simp
  | reference name =>
      simp
  | sequence parts =>
      exact carryOut_inTurn answer below parts offset
  | alternation branches =>
      exact carryOut_firstOf answer below branches offset
  | option body =>
      simp only [Inquiry.carryOut_bind]
      congr 1
      funext found
      cases found <;> rfl
  | repetition bounds body =>
      exact carryOut_again answer setting (below body) _ _ offset

end CarryOut

/-- What matching an element at an offset asks for: matches of elements at
offsets. -/
def inquiry (setting : Setting) (element : Element) (offset : Offset) :
    Inquiry (Element × Offset) (Option Offset) (Option Offset) :=
  level setting (fun part start => .ask (part, start) pure) element offset

theorem carryOut_inquiry
    (below : Element → Offset → ExceptT Fault (StateM σ) (Option Offset))
    (setting : Setting) (element : Element) (offset : Offset) :
    (inquiry setting element offset).carryOut
        (fun question => below question.1 question.2) =
      level setting below element offset := by
  rw [inquiry, carryOut_level]
  simp

end Greedy

end AbnfMatching
