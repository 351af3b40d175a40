import AbnfMatching.Proofs.Replies

/-!
# What a computation delivers

A computation that may fail returns a value or stops with a fault, and leaves a
state behind either way. What it has written down by then is complete in the
first case and breaks off in the second, so the two endings are described
separately. What is known of the answers to the questions of an inquiry carries
over to the computation that asks them.
-/

namespace AbnfMatching

variable {Question Reply α β σ : Type}

/-- Started in the state, the computation returns a value and leaves a state as
the first condition says, or stops and leaves a state as the second one says. -/
def Delivers
    (computation : ExceptT Fault (StateM σ) α) (state : σ)
    (returned : α → σ → Prop) (stopped : σ → Prop) : Prop :=
  match perform computation state with
  | (.ok value, later) => returned value later
  | (.error _, later) => stopped later

section Delivers

variable {computation : ExceptT Fault (StateM σ) α} {state : σ}
  {returned : α → σ → Prop} {stopped : σ → Prop}

theorem delivers_pure {value : α} (holds : returned value state) :
    Delivers (pure value) state returned stopped :=
  holds

theorem delivers_throw {cause : Fault} (holds : stopped state) :
    Delivers (throw cause : ExceptT Fault (StateM σ) α) state returned
      stopped :=
  holds

theorem delivers_bind
    {next : α → ExceptT Fault (StateM σ) β} {results : β → σ → Prop}
    (first : Delivers computation state
      (fun value later => Delivers (next value) later results stopped)
      stopped) :
    Delivers (computation >>= next) state results stopped := by
  unfold Delivers at first ⊢
  rw [perform_bind]
  generalize perform computation state = performed at first ⊢
  obtain ⟨cause | value, later⟩ := performed
  · exact first
  · exact first

theorem Delivers.mono
    {weaker : α → σ → Prop} {weakerStopped : σ → Prop}
    (delivers : Delivers computation state returned stopped)
    (weaken : ∀ value later, returned value later → weaker value later)
    (weakenStopped : ∀ later, stopped later → weakerStopped later) :
    Delivers computation state weaker weakerStopped := by
  unfold Delivers at delivers ⊢
  generalize perform computation state = performed at delivers ⊢
  obtain ⟨cause | value, later⟩ := performed
  · exact weakenStopped later delivers
  · exact weaken value later delivers

theorem Delivers.and
    {others : α → σ → Prop} {otherStopped : σ → Prop}
    (delivers : Delivers computation state returned stopped)
    (deliversToo : Delivers computation state others otherStopped) :
    Delivers computation state
      (fun value later => returned value later ∧ others value later)
      (fun later => stopped later ∧ otherStopped later) := by
  unfold Delivers at delivers deliversToo ⊢
  generalize perform computation state = performed at delivers deliversToo ⊢
  obtain ⟨cause | value, later⟩ := performed
  · exact ⟨delivers, deliversToo⟩
  · exact ⟨delivers, deliversToo⟩

end Delivers

/-- If every answer to an allowed question is acceptable and keeps up what holds
between the questions, then the inquiry comes to its goal and keeps it up as
well. Wherever it stops, it stops as an answer does or between two questions. -/
theorem Inquiry.carryOut_delivers
    (between stopped : σ → Prop) {allowed : Question → Prop}
    {acceptable : Question → Reply → Prop} {goal : α → Prop}
    {answer : Question → ExceptT Fault (StateM σ) Reply}
    {inquiry : Inquiry Question Reply α} {state : σ}
    (meets : inquiry.Meets allowed acceptable goal)
    (answers : ∀ question, allowed question → ∀ state, between state →
      Delivers (answer question) state
        (fun reply later => acceptable question reply ∧ between later)
        stopped)
    (stops : ∀ state, between state → stopped state)
    (begins : between state) :
    Delivers (inquiry.carryOut answer) state
      (fun value later => goal value ∧ between later) stopped := by
  induction inquiry generalizing state with
  | done value =>
      exact delivers_pure ⟨meets, begins⟩
  | fault cause =>
      exact delivers_throw (stops state begins)
  | ask question resume inductionHypothesis =>
      obtain ⟨permitted, continues⟩ := meets
      apply delivers_bind
      apply (answers question permitted state begins).mono
      · intro reply later given
        exact inductionHypothesis reply (continues reply given.1) given.2
      · exact fun _ isStopped => isStopped

end AbnfMatching
