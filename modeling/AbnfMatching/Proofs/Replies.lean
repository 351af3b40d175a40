import AbnfMatching.Proofs.Inquiry

/-!
# Reasoning about inquiries

What an inquiry comes to depends on the replies to its questions. Two
predicates describe that dependence: an inquiry meets a goal if every course
that acceptable replies can give it leads there, and it yields a value if some
course does. Both are tied to the computations that carry the inquiry out.
-/

namespace AbnfMatching

variable {Question Reply α β σ : Type}

/-- `Upholds invariant computation goal` says that a computation started in a
state with the invariant ends in one, and that its value, if it has one, is as
the goal wants it. -/
def Upholds
    (invariant : σ → Prop) (computation : ExceptT Fault (StateM σ) α)
    (goal : α → Prop) : Prop :=
  ∀ state, invariant state →
    invariant (perform computation state).2 ∧
      ∀ value, (perform computation state).1 = .ok value → goal value

theorem upholds_pure
    {invariant : σ → Prop} {value : α} {goal : α → Prop}
    (holds : goal value) :
    Upholds invariant (pure value) goal := by
  intro state kept
  refine ⟨kept, ?_⟩
  intro result returned
  cases returned
  exact holds

theorem upholds_throw
    {invariant : σ → Prop} {cause : Fault} {goal : α → Prop} :
    Upholds invariant (throw cause) goal := by
  intro state kept
  refine ⟨kept, ?_⟩
  intro result returned
  cases returned

theorem upholds_bind
    {invariant : σ → Prop} {computation : ExceptT Fault (StateM σ) α}
    {next : α → ExceptT Fault (StateM σ) β}
    {middle : α → Prop} {goal : β → Prop}
    (first : Upholds invariant computation middle)
    (second : ∀ value, middle value →
      Upholds invariant (next value) goal) :
    Upholds invariant (computation >>= next) goal := by
  intro state kept
  obtain ⟨keptLater, reached⟩ := first state kept
  rw [perform_bind]
  generalize perform computation state = performed at keptLater reached
  obtain ⟨result, later⟩ := performed
  cases result with
  | error cause =>
      exact ⟨keptLater, fun _ returned => nomatch returned⟩
  | ok value =>
      exact second value (reached value rfl) later keptLater

namespace Inquiry

/-- Every question is an allowed one, as long as the replies so far were
acceptable, and acceptable replies lead to the goal. -/
def Meets
    (allowed : Question → Prop) (acceptable : Question → Reply → Prop)
    (goal : α → Prop) : Inquiry Question Reply α → Prop
  | done value => goal value
  | fault _ => True
  | ask question resume =>
      allowed question ∧
        ∀ reply, acceptable question reply →
          Meets allowed acceptable goal (resume reply)

/-- Some acceptable replies lead to the value. -/
inductive Yields (acceptable : Question → Reply → Prop) :
    Inquiry Question Reply α → α → Prop
  | done (value : α) :
      Yields acceptable (done value) value
  | ask {question : Question} {resume : Reply → Inquiry Question Reply α}
      {reply : Reply} {value : α} :
      acceptable question reply →
      Yields acceptable (resume reply) value →
      Yields acceptable (ask question resume) value

section Meets

variable {allowed : Question → Prop} {acceptable : Question → Reply → Prop}

theorem meets_mono
    {goal weaker : α → Prop} {inquiry : Inquiry Question Reply α}
    (meets : inquiry.Meets allowed acceptable goal)
    (weaken : ∀ value, goal value → weaker value) :
    inquiry.Meets allowed acceptable weaker := by
  induction inquiry with
  | done value =>
      exact weaken value meets
  | fault cause =>
      trivial
  | ask question resume inductionHypothesis =>
      obtain ⟨permitted, continues⟩ := meets
      refine ⟨permitted, ?_⟩
      intro reply accepted
      exact inductionHypothesis reply (continues reply accepted)

theorem meets_widen
    {wider : Question → Prop} {goal : α → Prop}
    {inquiry : Inquiry Question Reply α}
    (meets : inquiry.Meets allowed acceptable goal)
    (widen : ∀ question, allowed question → wider question) :
    inquiry.Meets wider acceptable goal := by
  induction inquiry with
  | done value =>
      exact meets
  | fault cause =>
      trivial
  | ask question resume inductionHypothesis =>
      obtain ⟨permitted, continues⟩ := meets
      refine ⟨widen question permitted, ?_⟩
      intro reply accepted
      exact inductionHypothesis reply (continues reply accepted)

theorem meets_bind
    {goal : β → Prop} {inquiry : Inquiry Question Reply α}
    {next : α → Inquiry Question Reply β}
    (meets : inquiry.Meets allowed acceptable fun value =>
      (next value).Meets allowed acceptable goal) :
    (inquiry >>= next).Meets allowed acceptable goal := by
  induction inquiry with
  | done value =>
      exact meets
  | fault cause =>
      trivial
  | ask question resume inductionHypothesis =>
      obtain ⟨permitted, continues⟩ := meets
      refine ⟨permitted, ?_⟩
      intro reply accepted
      exact inductionHypothesis reply (continues reply accepted)

theorem meets_trivial (inquiry : Inquiry Question Reply α) :
    inquiry.Meets (fun _ => True) (fun _ _ => True) fun _ => True := by
  induction inquiry with
  | done value => trivial
  | fault cause => trivial
  | ask question resume inductionHypothesis =>
      exact ⟨trivial, fun reply _ => inductionHypothesis reply⟩

theorem meets_lift
    {goal : α → Prop} {result : Except Fault α}
    (holds : ∀ value, result = .ok value → goal value) :
    (liftM result : Inquiry Question Reply α).Meets
      allowed acceptable goal := by
  cases result with
  | ok value => exact holds value rfl
  | error cause => trivial

theorem meets_question
    {goal : Reply → Prop} {question : Question}
    (permitted : allowed question)
    (holds : ∀ reply, acceptable question reply → goal reply) :
    (ask question pure).Meets allowed acceptable goal :=
  ⟨permitted, holds⟩

/-- What holds on every acceptable course holds on the one that was taken. -/
theorem Meets.of_yields
    {goal : α → Prop} {inquiry : Inquiry Question Reply α} {value : α}
    (meets : inquiry.Meets allowed acceptable goal)
    (yields : inquiry.Yields acceptable value) :
    goal value := by
  induction yields with
  | done value => exact meets
  | ask accepted _ inductionHypothesis =>
      exact inductionHypothesis (meets.2 _ accepted)

/-- If the answers to allowed questions are acceptable and uphold an
invariant, then so does the inquiry that asks for them. -/
theorem carryOut_upholds
    {invariant : σ → Prop} {goal : α → Prop}
    {answer : Question → ExceptT Fault (StateM σ) Reply}
    {inquiry : Inquiry Question Reply α}
    (meets : inquiry.Meets allowed acceptable goal)
    (answers : ∀ question, allowed question →
      Upholds invariant (answer question) (acceptable question)) :
    Upholds invariant (inquiry.carryOut answer) goal := by
  induction inquiry with
  | done value =>
      exact upholds_pure meets
  | fault cause =>
      exact upholds_throw
  | ask question resume inductionHypothesis =>
      obtain ⟨permitted, continues⟩ := meets
      refine upholds_bind (answers question permitted) ?_
      intro reply accepted
      exact inductionHypothesis reply (continues reply accepted)

end Meets

section Yields

variable {acceptable : Question → Reply → Prop}
  {inquiry : Inquiry Question Reply α}

theorem Yields.mono
    {wider : Question → Reply → Prop} {value : α}
    (yields : inquiry.Yields acceptable value)
    (widen : ∀ question reply,
      acceptable question reply → wider question reply) :
    inquiry.Yields wider value := by
  induction yields with
  | done value => exact .done value
  | ask accepted _ inductionHypothesis =>
      exact .ask (widen _ _ accepted) inductionHypothesis

theorem yields_bind_iff
    {next : α → Inquiry Question Reply β} {value : β} :
    (inquiry >>= next).Yields acceptable value ↔
      ∃ middle, inquiry.Yields acceptable middle ∧
        (next middle).Yields acceptable value := by
  induction inquiry with
  | done start =>
      constructor
      · intro yields
        exact ⟨start, .done start, yields⟩
      · intro split
        obtain ⟨_, ⟨⟩, yields⟩ := split
        exact yields
  | fault cause =>
      constructor
      · intro yields
        cases yields
      · intro split
        obtain ⟨_, ⟨⟩, _⟩ := split
  | ask question resume inductionHypothesis =>
      constructor
      · intro yields
        cases yields with
        | ask accepted continues =>
            obtain ⟨middle, first, second⟩ :=
              (inductionHypothesis _).mp continues
            exact ⟨middle, .ask accepted first, second⟩
      · intro split
        obtain ⟨middle, first, second⟩ := split
        cases first with
        | ask accepted continues =>
            exact .ask accepted
              ((inductionHypothesis _).mpr ⟨middle, continues, second⟩)

theorem yields_pure_iff {result value : α} :
    (pure result : Inquiry Question Reply α).Yields acceptable value ↔
      value = result := by
  constructor
  · intro yields
    cases yields
    rfl
  · intro same
    subst same
    exact .done value

theorem yields_lift_iff {result : Except Fault α} {value : α} :
    (liftM result : Inquiry Question Reply α).Yields acceptable value ↔
      result = .ok value := by
  cases result with
  | ok found =>
      constructor
      · intro yields
        cases yields
        rfl
      · intro yields
        cases yields
        exact .done value
  | error cause =>
      constructor
      · intro yields
        cases yields
      · intro equal
        cases equal

theorem yields_question_iff {question : Question} {value : Reply} :
    (ask question pure).Yields acceptable value ↔
      acceptable question value := by
  constructor
  · intro yields
    cases yields with
    | ask accepted continues =>
        cases continues
        exact accepted
  · intro accepted
    exact .ask accepted (.done value)

/-- Replies that are determined by the question determine the value. -/
theorem Yields.unique
    {other : Question → Reply → Prop} {left right : α}
    (determined : ∀ question reply reply',
      acceptable question reply → other question reply' → reply = reply')
    (first : inquiry.Yields acceptable left)
    (second : inquiry.Yields other right) :
    left = right := by
  induction first with
  | done value =>
      cases second
      rfl
  | ask accepted _ inductionHypothesis =>
      cases second with
      | ask accepted' continues =>
          cases determined _ _ _ accepted accepted'
          exact inductionHypothesis continues

/-- A value that a computation returns is yielded by replies that its answers
gave. -/
theorem yields_of_carryOut
    {answer : Question → ExceptT Fault (StateM σ) Reply}
    (state : σ) {value : α}
    (returned : (perform (inquiry.carryOut answer) state).1 = .ok value) :
    inquiry.Yields
      (fun question reply => ∃ before,
        (perform (answer question) before).1 = .ok reply)
      value := by
  induction inquiry generalizing state with
  | done result =>
      cases returned
      exact .done value
  | fault cause =>
      cases returned
  | ask question resume inductionHypothesis =>
      rw [carryOut, perform_bind] at returned
      rcases answered : perform (answer question) state with ⟨_ | reply, later⟩
      · rw [answered] at returned
        cases returned
      · rw [answered] at returned
        exact .ask ⟨state, by rw [answered]⟩
          (inductionHypothesis reply later returned)

/-- Answers that return the acceptable replies, whatever happened before, lead
to the value that these replies yield. -/
theorem carryOut_of_yields
    (answer : Question → ExceptT Fault (StateM σ) Reply) {value : α}
    (yields : inquiry.Yields acceptable value)
    (answers : ∀ question reply state, acceptable question reply →
      (perform (answer question) state).1 = .ok reply)
    (state : σ) :
    (perform (inquiry.carryOut answer) state).1 = .ok value := by
  induction yields generalizing state with
  | done value =>
      rfl
  | @ask question resume reply value accepted _ inductionHypothesis =>
      rw [carryOut, perform_bind]
      have returned := answers question reply state accepted
      generalize perform (answer question) state = performed at returned ⊢
      obtain ⟨result, later⟩ := performed
      dsimp only at returned
      subst returned
      exact inductionHypothesis later

/-- If something holds of each reply when it is given, and never ceases to hold,
then it holds of all replies in the end. -/
theorem yields_lasting
    {invariant : σ → Prop} {allowed : Question → Prop} {goal : α → Prop}
    (lasting : Question → Reply → σ → Prop)
    {answer : Question → ExceptT Fault (StateM σ) Reply}
    {state later : σ} {value : α}
    (meets : inquiry.Meets allowed acceptable goal)
    (answers : ∀ question, allowed question →
      Upholds invariant (answer question) (acceptable question))
    (given : ∀ question state reply later, allowed question →
      perform (answer question) state = (.ok reply, later) →
      lasting question reply later)
    (lasts : ∀ question reply other,
      Upholds (lasting question reply) (answer other) fun _ => True)
    (begins : invariant state)
    (returned : perform (inquiry.carryOut answer) state =
      (.ok value, later)) :
    inquiry.Yields (fun question reply => lasting question reply later)
      value := by
  induction inquiry generalizing state with
  | done result =>
      cases returned
      exact .done value
  | fault cause =>
      cases returned
  | ask question resume inductionHypothesis =>
      obtain ⟨permitted, continues⟩ := meets
      rw [carryOut, perform_bind] at returned
      have upheld := answers question permitted state begins
      rcases answered : perform (answer question) state with
        ⟨cause | reply, middle⟩
      · rw [answered] at returned
        cases returned
      · rw [answered] at returned upheld
        obtain ⟨keptMiddle, accepted⟩ := upheld
        have lastsOn :=
          carryOut_upholds (resume reply).meets_trivial
            (fun other _ => lasts question reply other) middle
            (given question state reply middle permitted answered)
        dsimp only at returned
        rw [returned] at lastsOn
        exact .ask lastsOn.1
          (inductionHypothesis reply (continues reply (accepted reply rfl))
            keptMiddle returned)

end Yields

end Inquiry

end AbnfMatching
