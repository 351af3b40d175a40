import AbnfMatching.Proofs.Soundness

/-!
# Where faults come from

A match stops with a fault for one of two reasons. Either an element cannot be
evaluated at all, because its slice of the input does not exist or its rule is
missing, or the nesting limit is reached. Which of these can happen is therefore
settled visit by visit: whatever is tolerated of every visit on the way is all
that a match can stop with.
-/

namespace AbnfMatching

/-! ## Faults of a single element -/

/-- A rule is missing, either because there is no grammar or because the grammar
does not have it. -/
def Fault.IsUnresolved : Fault → Prop
  | noGrammar _ => True
  | undefinedRule _ => True
  | tooDeep _ => False
  | outOfRange => False

/-- Why an element cannot be evaluated at an offset. -/
inductive Setting.Denies (setting : Setting) (offset : Offset) :
    Element → Fault → Prop
  | slice {value : Terminal} {cause : Fault} :
      setting.terminalEnd value offset = .error cause →
      Denies setting offset (.terminal value) cause
  | rule {name : RuleName} {cause : Fault} :
      setting.resolve name = .error cause →
      Denies setting offset (.reference name) cause

section Denies

variable {setting : Setting} {offset : Offset}

/-- Every slice that is taken at an offset of the input exists. -/
theorem Setting.terminalEnd_ne_error
    {value : Terminal} {cause : Fault}
    (inside : offset.toNat ≤ setting.input.size) :
    setting.terminalEnd value offset ≠ .error cause := by
  intro failed
  unfold terminalEnd at failed
  dsimp only at failed
  split at failed
  · cases failed
  · rw [if_neg (by omega)] at failed
    split at failed <;> cases failed

theorem Grammar.isUnresolved_of_fetch
    {grammar : Grammar} {name : Octets} {cause : Fault}
    (failed : grammar.fetch name = .error cause) :
    cause.IsUnresolved := by
  unfold fetch at failed
  split at failed
  · cases failed
  · cases failed
    trivial

theorem Setting.isUnresolved_of_resolve
    {name : RuleName} {cause : Fault}
    (failed : setting.resolve name = .error cause) :
    cause.IsUnresolved := by
  unfold resolve at failed
  split at failed
  · cases failed
    trivial
  · exact Grammar.isUnresolved_of_fetch failed

theorem Setting.Denies.isUnresolved
    {element : Element} {cause : Fault}
    (denies : setting.Denies offset element cause)
    (inside : offset.toNat ≤ setting.input.size) :
    cause.IsUnresolved := by
  cases denies with
  | slice failed => exact absurd failed (terminalEnd_ne_error inside)
  | rule failed => exact isUnresolved_of_resolve failed

end Denies

/-! ## Faults of an inquiry -/

namespace Inquiry

variable {Question Reply α β σ : Type}

/-- Some replies lead the inquiry to the fault. -/
inductive Raises : Inquiry Question Reply α → Fault → Prop
  | fault (cause : Fault) :
      Raises (fault cause) cause
  | ask {question : Question} {resume : Reply → Inquiry Question Reply α}
      {reply : Reply} {cause : Fault} :
      Raises (resume reply) cause →
      Raises (ask question resume) cause

/-- The inquiry itself raises no fault, whatever the replies. -/
def Silent (inquiry : Inquiry Question Reply α) : Prop :=
  ∀ cause, ¬ inquiry.Raises cause

theorem raises_of_bind
    {inquiry : Inquiry Question Reply α}
    {next : α → Inquiry Question Reply β} {cause : Fault}
    (raises : (inquiry >>= next).Raises cause) :
    inquiry.Raises cause ∨ ∃ value, (next value).Raises cause := by
  induction inquiry with
  | done value =>
      exact Or.inr ⟨value, raises⟩
  | fault own =>
      cases raises
      exact Or.inl (.fault _)
  | ask question resume inductionHypothesis =>
      cases raises with
      | ask later =>
          exact (inductionHypothesis _ later).imp_left .ask

theorem raises_lift_iff {result : Except Fault α} {cause : Fault} :
    (liftM result : Inquiry Question Reply α).Raises cause ↔
      result = .error cause := by
  cases result with
  | ok value =>
      constructor
      · intro raises
        cases raises
      · intro equal
        cases equal
  | error own =>
      constructor
      · intro raises
        cases raises
        rfl
      · intro equal
        cases equal
        exact .fault _

theorem silent_pure (value : α) :
    Silent (pure value : Inquiry Question Reply α) := by
  intro cause raises
  cases raises

theorem silent_question (question : Question) :
    Silent (ask question pure : Inquiry Question Reply Reply) := by
  intro cause raises
  cases raises with
  | ask later => exact silent_pure _ cause later

theorem silent_bind
    {inquiry : Inquiry Question Reply α}
    {next : α → Inquiry Question Reply β}
    (first : inquiry.Silent) (second : ∀ value, (next value).Silent) :
    (inquiry >>= next).Silent := by
  intro cause raises
  rcases raises_of_bind raises with early | ⟨value, late⟩
  · exact first cause early
  · exact second value cause late

/-- While an inquiry is carried out from the state `begin`, the question is
put in the state `moment`. -/
inductive Puts
    (answer : Question → ExceptT Fault (StateM σ) Reply) :
    Inquiry Question Reply α → (begin : σ) → Question → (moment : σ) → Prop
  | now {question : Question} {resume : Reply → Inquiry Question Reply α}
      {state : σ} :
      Puts answer (ask question resume) state question state
  | later {first question : Question}
      {resume : Reply → Inquiry Question Reply α} {reply : Reply}
      {state middle moment : σ} :
      perform (answer first) state = (.ok reply, middle) →
      Puts answer (resume reply) middle question moment →
      Puts answer (ask first resume) state question moment

section Puts

variable {answer : Question → ExceptT Fault (StateM σ) Reply}
  {inquiry : Inquiry Question Reply α} {state : σ} {cause : Fault}

/-- A question that is put is an allowed one, and the invariant holds when it
is put. -/
theorem Puts.allowed
    {invariant : σ → Prop} {allowed : Question → Prop}
    {acceptable : Question → Reply → Prop} {goal : α → Prop}
    {begin moment : σ} {question : Question}
    (puts : Puts answer inquiry begin question moment)
    (meets : inquiry.Meets allowed acceptable goal)
    (answers : ∀ question, allowed question →
      Upholds invariant (answer question) (acceptable question))
    (begins : invariant begin) :
    allowed question ∧ invariant moment := by
  induction puts with
  | now =>
      exact ⟨meets.1, begins⟩
  | @later first question resume reply state middle moment answered _
      inductionHypothesis =>
      obtain ⟨permitted, continues⟩ := meets
      have upheld := answers first permitted state begins
      rw [answered] at upheld
      obtain ⟨keptMiddle, accepted⟩ := upheld
      exact inductionHypothesis (continues reply (accepted reply rfl))
        keptMiddle

/-- If carrying out an inquiry fails, the inquiry raises the fault or a question
that is put is answered with it. -/
theorem raises_or_puts_of_failed
    (failed : (perform (inquiry.carryOut answer) state).1 = .error cause) :
    inquiry.Raises cause ∨
      ∃ question moment, Puts answer inquiry state question moment ∧
        (perform (answer question) moment).1 = .error cause := by
  induction inquiry generalizing state with
  | done value =>
      cases failed
  | fault own =>
      cases failed
      exact Or.inl (.fault cause)
  | ask question resume inductionHypothesis =>
      rw [carryOut, perform_bind] at failed
      cases answered : perform (answer question) state with
      | mk result middle =>
          rw [answered] at failed
          cases result with
          | error own =>
              cases failed
              exact Or.inr ⟨question, state, .now, by rw [answered]⟩
          | ok reply =>
              rcases inductionHypothesis reply failed with
                raises | ⟨other, moment, puts, fails⟩
              · exact Or.inl raises.ask
              · exact Or.inr ⟨other, moment, .later answered puts, fails⟩

end Puts

/-- A computation that carries an inquiry out stops with a fault of the inquiry
itself or of one of its answers. -/
theorem fault_of_carryOut
    {invariant : σ → Prop} {allowed : Question → Prop}
    {acceptable : Question → Reply → Prop} {goal : α → Prop}
    {answer : Question → ExceptT Fault (StateM σ) Reply}
    {inquiry : Inquiry Question Reply α} {state : σ} {cause : Fault}
    (meets : inquiry.Meets allowed acceptable goal)
    (answers : ∀ question, allowed question →
      Upholds invariant (answer question) (acceptable question))
    (begins : invariant state)
    (failed : (perform (inquiry.carryOut answer) state).1 = .error cause) :
    inquiry.Raises cause ∨
      ∃ question before, allowed question ∧ invariant before ∧
        (perform (answer question) before).1 = .error cause := by
  rcases raises_or_puts_of_failed failed with
    raises | ⟨question, moment, puts, fails⟩
  · exact Or.inl raises
  · obtain ⟨permitted, kept⟩ := puts.allowed meets answers begins
    exact Or.inr ⟨question, moment, permitted, kept, fails⟩

end Inquiry

/-! ## Exhaustive matching -/

namespace Exhaustive

section Silent

variable {part : Occurrence} {occurrences : List Occurrence}

theorem silent_askAll (questions : List (Occurrence × Offset)) :
    (askAll questions).Silent := by
  induction questions with
  | nil =>
      exact Inquiry.silent_pure _
  | cons head tail inductionHypothesis =>
      refine Inquiry.silent_bind (Inquiry.silent_question head) ?_
      intro first
      exact Inquiry.silent_bind inductionHypothesis
        fun others => Inquiry.silent_pure _

theorem silent_fromAny (starts : List Offset) :
    (fromAny (askVisit part) starts).Silent := by
  rw [fromAny_askVisit]
  exact silent_askAll _

theorem silent_anyOf (offset : Offset) :
    (anyOf askVisit occurrences offset).Silent := by
  rw [anyOf_askVisit]
  exact silent_askAll _

theorem silent_inTurn (current : Ends) :
    (inTurn askVisit occurrences current).Silent := by
  induction occurrences generalizing current with
  | nil =>
      exact Inquiry.silent_pure _
  | cons head tail inductionHypothesis =>
      rw [inTurn]
      split
      · exact Inquiry.silent_pure _
      · exact Inquiry.silent_bind (silent_fromAny _) inductionHypothesis

theorem silent_advance (rounds : Nat) (frontier : Ends) :
    (advance (askVisit part) rounds frontier).Silent := by
  rw [advance_eq_inTurn]
  exact silent_inTurn frontier

theorem silent_extend (left : Option Nat) (accepted frontier : Ends) :
    (extend (askVisit part) left accepted frontier).Silent := by
  induction left, accepted, frontier using extend.induct with
  | case1 accepted frontier =>
      rw [extend_filled]
      exact Inquiry.silent_pure _
  | case2 left accepted frontier unfilled inductionHypothesis =>
      rw [extend_round unfilled]
      refine Inquiry.silent_bind (silent_fromAny _) ?_
      intro next
      by_cases settled : accepted.union next = accepted
      · rw [if_pos settled]
        exact Inquiry.silent_pure _
      · rw [if_neg settled]
        exact inductionHypothesis next settled

end Silent

/-- The inquiry of an occurrence raises no fault but that its element cannot be
evaluated. -/
theorem denies_of_raises
    {setting : Setting} {occurrence : Occurrence} {offset : Offset}
    {cause : Fault}
    (raises : (inquiry setting occurrence offset).Raises cause) :
    setting.Denies offset occurrence.element cause := by
  obtain ⟨tree, index, element⟩ := occurrence
  unfold inquiry level at raises
  cases element with
  | terminal value =>
      rcases Inquiry.raises_of_bind raises with early | ⟨found, late⟩
      · exact .slice (Inquiry.raises_lift_iff.mp early)
      · cases found with
        | none => exact absurd late (Inquiry.silent_pure _ cause)
        | some stop => exact absurd late (Inquiry.silent_pure _ cause)
  | reference name =>
      rcases Inquiry.raises_of_bind raises with early | ⟨rule, late⟩
      · exact .rule (Inquiry.raises_lift_iff.mp early)
      · exact absurd late (Inquiry.silent_question _ cause)
  | sequence parts =>
      exact absurd raises (silent_inTurn _ cause)
  | alternation branches =>
      exact absurd raises (silent_anyOf _ cause)
  | option body =>
      refine absurd raises (Inquiry.silent_bind
        (Inquiry.silent_question _) ?_ cause)
      exact fun found => Inquiry.silent_pure _
  | repetition bounds body =>
      refine absurd raises (Inquiry.silent_bind
        (silent_advance _ _) ?_ cause)
      exact fun reached => silent_extend _ _ _

/-- Only a fresh visit stops with a fault: a filed one is answered from the
table, and one under way finds nothing. -/
theorem fresh_of_failed
    {setting : Setting} {room : Nat} {active : List Visit}
    {occurrence : Occurrence} {offset : Offset} {memory : Memory}
    {cause : Fault}
    (failed :
      (perform (visit setting room active occurrence offset) memory).1 =
        .error cause) :
    memory.table.find? (occurrence.visitAt offset) = none ∧
      occurrence.visitAt offset ∉ active := by
  cases filed : memory.table.find? (occurrence.visitAt offset) with
  | some known =>
      rw [perform_visit_of_filed filed] at failed
      cases failed
  | none =>
      refine ⟨rfl, ?_⟩
      intro underWay
      rw [perform_visit_of_under_way filed underWay] at failed
      cases failed

/-- Whatever is tolerated of the visits on the way is all that a visit can stop
with. Visits are followed as long as they are ready: with no level to spare a
fresh visit reaches the limit, and with some to spare its element may be
denied. -/
theorem fault_of_visit
    {setting : Setting} (subject : Element) (tolerated : Fault → Prop)
    (ready : Nat → List Visit → Occurrence → Offset → Prop)
    (fits : setting.Addressable)
    (placed : ∀ room active occurrence offset,
      ready room active occurrence offset →
      occurrence.Placed setting.grammar subject ∧
        offset.toNat ≤ setting.input.size)
    (exhausted : ∀ active occurrence offset,
      ready 0 active occurrence offset →
      occurrence.visitAt offset ∉ active →
      tolerated (.tooDeep active.length))
    (denied : ∀ room active occurrence offset cause,
      ready (room + 1) active occurrence offset →
      setting.Denies offset occurrence.element cause →
      tolerated cause)
    (asked : ∀ room active occurrence offset question,
      ready (room + 1) active occurrence offset →
      occurrence.visitAt offset ∉ active →
      Asks setting occurrence offset question →
      ready room (occurrence.visitAt offset :: active)
        question.1 question.2)
    {room : Nat} {active : List Visit} {occurrence : Occurrence}
    {offset : Offset} {memory : Memory} {cause : Fault}
    (isReady : ready room active occurrence offset)
    (sound : FiledWell setting.grammar subject
      (fun part start => Bracketed setting (fun _ _ _ => False) (part, start))
      memory)
    (failed :
      (perform (visit setting room active occurrence offset) memory).1 =
        .error cause) :
    tolerated cause := by
  obtain ⟨unfiled, notUnderWay⟩ := fresh_of_failed failed
  induction room generalizing active occurrence offset memory with
  | zero =>
      rw [perform_visit_zero unfiled notUnderWay] at failed
      cases failed
      exact exhausted active occurrence offset isReady notUnderWay
  | succ room inductionHypothesis =>
      rw [perform_visit_succ unfiled notUnderWay, perform_evaluate] at failed
      split at failed
      · cases failed
      · next own later performed =>
          cases failed
          obtain ⟨isPlaced, inside⟩ :=
            placed (room + 1) active occurrence offset isReady
          have source := Inquiry.fault_of_carryOut
            (meets_inquiry (fun _ _ _ => False) fits inside)
            (fun question asks =>
              visit_sound room (occurrence.visitAt offset :: active)
                fits (isPlaced.below asks.below) asks.inside)
            sound (by rw [performed])
          rcases source with raises |
            ⟨question, before, asks, soundBefore, answered⟩
          · exact denied room active occurrence offset cause isReady
              (denies_of_raises raises)
          · have readyBelow :=
              asked room active occurrence offset question isReady
                notUnderWay asks
            have freshBelow := fresh_of_failed answered
            exact inductionHypothesis readyBelow soundBefore answered
              freshBelow.1 freshBelow.2

end Exhaustive

end AbnfMatching
