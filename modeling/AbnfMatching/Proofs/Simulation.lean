import AbnfMatching.Proofs.Replies

/-!
# Two computations side by side

One computation simulates another if, from related states, it comes to an
agreeing value and a related state, or to the same fault. The simulated
computation may in addition stop with a fault that is excused.
-/

namespace AbnfMatching

variable {Question Reply α β α' β' σ τ : Type}

/-- How the results of two computations compare. -/
inductive Tallies
    (related : σ → τ → Prop) (excused : Fault → Prop) (agree : α → β → Prop) :
    Except Fault α × σ → Except Fault β × τ → Prop
  | values {left : α} {right : β} {state : σ} {state' : τ} :
      related state state' →
      agree left right →
      Tallies related excused agree (.ok left, state) (.ok right, state')
  | faults {cause : Fault} {state : σ} {state' : τ} :
      Tallies related excused agree (.error cause, state)
        (.error cause, state')
  | excused {cause : Fault} {result : Except Fault α × σ} {state' : τ} :
      excused cause →
      Tallies related excused agree result (.error cause, state')

/-- From related states, the computations have results that compare. -/
def Simulates
    (related : σ → τ → Prop) (excused : Fault → Prop)
    (left : ExceptT Fault (StateM σ) α) (right : ExceptT Fault (StateM τ) β)
    (agree : α → β → Prop) : Prop :=
  ∀ state state', related state state' →
    Tallies related excused agree (perform left state) (perform right state')

section Tallies

variable {related : σ → τ → Prop} {excused : Fault → Prop}
  {agree : α → β → Prop} {left : Except Fault α × σ}
  {right : Except Fault β × τ}

/-- What the right computation returns agrees with what the left one
returns. -/
theorem Tallies.of_ok
    {value' : β}
    (tallies : Tallies related excused agree left right)
    (returned : right.1 = .ok value') :
    ∃ value, left.1 = .ok value ∧ agree value value' := by
  cases tallies with
  | values _ agreed =>
      cases returned
      exact ⟨_, rfl, agreed⟩
  | faults => cases returned
  | excused _ => cases returned

/-- Equal results compare, whatever is excused. -/
theorem tallies_of_eq
    {left : Except Fault α × σ} {right : Except Fault α × τ}
    (states : related left.2 right.2) (same : left.1 = right.1) :
    Tallies related excused (· = ·) left right := by
  obtain ⟨result, state⟩ := left
  obtain ⟨result', state'⟩ := right
  cases same
  cases result with
  | ok value => exact .values states rfl
  | error cause => exact .faults

end Tallies

section Simulates

variable {related : σ → τ → Prop} {excused : Fault → Prop}

theorem simulates_pure
    {value : α} {value' : β} {agree : α → β → Prop}
    (agreed : agree value value') :
    Simulates related excused (pure value) (pure value') agree :=
  fun _ _ states => .values states agreed

theorem simulates_mono
    {left : ExceptT Fault (StateM σ) α} {right : ExceptT Fault (StateM τ) β}
    {agree weaker : α → β → Prop}
    (simulates : Simulates related excused left right agree)
    (weaken : ∀ value value', agree value value' → weaker value value') :
    Simulates related excused left right weaker := by
  intro state state' states
  have tallies := simulates state state' states
  generalize perform left state = performed at tallies ⊢
  generalize perform right state' = performed' at tallies ⊢
  cases tallies with
  | values later agreed => exact .values later (weaken _ _ agreed)
  | faults => exact .faults
  | excused pardoned => exact .excused pardoned

theorem simulates_throw
    {cause : Fault} {agree : α → β → Prop} :
    Simulates related excused (throw cause) (throw cause) agree :=
  fun _ _ _ => .faults

theorem simulates_bind
    {left : ExceptT Fault (StateM σ) α} {right : ExceptT Fault (StateM τ) β}
    {next : α → ExceptT Fault (StateM σ) α'}
    {next' : β → ExceptT Fault (StateM τ) β'}
    {middle : α → β → Prop} {agree : α' → β' → Prop}
    (first : Simulates related excused left right middle)
    (second : ∀ value value', middle value value' →
      Simulates related excused (next value) (next' value') agree) :
    Simulates related excused (left >>= next) (right >>= next') agree := by
  intro state state' states
  rw [perform_bind, perform_bind]
  have tallies := first state state' states
  generalize perform left state = performed at tallies ⊢
  generalize perform right state' = performed' at tallies ⊢
  cases tallies with
  | values later agreed => exact second _ _ agreed _ _ later
  | faults => exact .faults
  | excused pardoned => exact .excused pardoned

/-- What the left computation upholds by itself holds of its value here. -/
theorem simulates_upholds
    {left : ExceptT Fault (StateM σ) α} {right : ExceptT Fault (StateM τ) β}
    {invariant : σ → Prop} {goal : α → Prop} {agree : α → β → Prop}
    (simulates : Simulates related excused left right agree)
    (upheld : Upholds invariant left goal)
    (kept : ∀ state state', related state state' → invariant state) :
    Simulates related excused left right
      fun value value' => agree value value' ∧ goal value := by
  intro state state' states
  have tallies := simulates state state' states
  have reached := (upheld state (kept state state' states)).2
  generalize perform left state = performed at tallies reached ⊢
  generalize perform right state' = performed' at tallies ⊢
  cases tallies with
  | values later agreed => exact .values later ⟨agreed, reached _ rfl⟩
  | faults => exact .faults
  | excused pardoned => exact .excused pardoned

theorem simulates_bind_pure
    {left : ExceptT Fault (StateM σ) α} {right : ExceptT Fault (StateM τ) β}
    {change : α → α'} {before : α → β → Prop} {agree : α' → β → Prop}
    (simulates : Simulates related excused left right before)
    (changed : ∀ value value',
      before value value' → agree (change value) value') :
    Simulates related excused (left >>= fun value => pure (change value))
      right agree := by
  intro state state' states
  rw [perform_bind]
  have tallies := simulates state state' states
  generalize perform left state = performed at tallies ⊢
  generalize perform right state' = performed' at tallies ⊢
  cases tallies with
  | values later agreed => exact .values later (changed _ _ agreed)
  | faults => exact .faults
  | excused pardoned => exact .excused pardoned

/-- It does not matter whether trace entries are made, nor what they say. -/
theorem Greedy.simulates_note
    {setting setting' : Setting} (entry entry' : TraceEntry) :
    Simulates (fun _ _ => True) excused (Greedy.note setting entry)
      (Greedy.note setting' entry') fun _ _ => True := by
  intro trace trace' _
  unfold note
  by_cases verbose : setting.verbose = true <;>
  by_cases verbose' : setting'.verbose = true <;>
  simp only [verbose, verbose', if_true] <;>
  exact .values trivial trivial

/-- Carrying out one inquiry with answers that agree leads to values that
agree. -/
theorem Inquiry.carryOut_simulates
    {allowed : Question → Prop} {acceptable : Question → Reply → Prop}
    {goal : α → Prop} {inquiry : Inquiry Question Reply α}
    {left : Question → ExceptT Fault (StateM σ) Reply}
    {right : Question → ExceptT Fault (StateM τ) Reply}
    (meets : inquiry.Meets allowed acceptable goal)
    (answers : ∀ question, allowed question →
      Simulates related excused (left question) (right question)
        fun reply reply' => reply = reply' ∧ acceptable question reply) :
    Simulates related excused (inquiry.carryOut left)
      (inquiry.carryOut right)
      fun value value' => value = value' ∧ goal value := by
  induction inquiry with
  | done value =>
      exact simulates_pure ⟨rfl, meets⟩
  | fault cause =>
      exact simulates_throw
  | ask question resume inductionHypothesis =>
      obtain ⟨permitted, continues⟩ := meets
      refine simulates_bind (answers question permitted) ?_
      intro reply reply' agreed
      obtain ⟨rfl, accepted⟩ := agreed
      exact inductionHypothesis reply (continues reply accepted)

/-- An inquiry whose replies are known in advance comes to the value that they
yield if each of them is given again. The left state stands still. -/
theorem Inquiry.carryOut_repeats
    {allowed : Question → Prop} {acceptable known : Question → Reply → Prop}
    {goal : α → Prop} {inquiry : Inquiry Question Reply α} {value : α}
    {answer : Question → ExceptT Fault (StateM τ) Reply}
    {state : σ} {state' : τ}
    (meets : inquiry.Meets allowed acceptable goal)
    (yields : inquiry.Yields known value)
    (sound : ∀ question reply,
      allowed question → known question reply → acceptable question reply)
    (answers : ∀ question reply state',
      allowed question → known question reply → related state state' →
      Tallies related excused (· = ·) (.ok reply, state)
        (perform (answer question) state'))
    (states : related state state') :
    Tallies related excused (· = ·) (.ok value, state)
      (perform (inquiry.carryOut answer) state') := by
  induction yields generalizing state' with
  | done value =>
      exact .values states rfl
  | @ask question resume reply value isKnown _ inductionHypothesis =>
      obtain ⟨permitted, continues⟩ := meets
      rw [carryOut, perform_bind]
      have tallies := answers question reply state' permitted isKnown states
      generalize perform (answer question) state' = performed at tallies ⊢
      cases tallies with
      | values later agreed =>
          cases agreed
          exact inductionHypothesis
            (continues reply (sound question reply permitted isKnown)) later
      | excused pardoned => exact .excused pardoned

end Simulates

end AbnfMatching
