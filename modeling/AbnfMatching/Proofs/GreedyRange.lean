import AbnfMatching.Proofs.Confinement

/-!
# Where one level of greedy matching looks

Greedy matching of an element at an offset of the input asks only for matches
of the elements right below it, at offsets from there to the end of the input.
Where it finds an end, the end lies in the same range.
-/

namespace AbnfMatching.Greedy

/-- An end that has been found lies between the start and the end of the
input. -/
def EndsInside
    (setting : Setting) (start : Offset) (found : Option Offset) : Prop :=
  ∀ stop, found = some stop → start ≤ stop ∧ stop.toNat ≤ setting.input.size

/-- The matches that matching an occurrence at an offset may ask for. -/
structure Asks
    (setting : Setting) (occurrence : Occurrence) (offset : Offset)
    (question : Element × Offset) : Prop where
  below : ∃ part, Below setting.grammar occurrence part ∧
    part.element = question.1
  ordered : offset ≤ question.2
  inside : question.2.toNat ≤ setting.input.size

/-- An end that has been found lies in the region. -/
def FoundIn (region : Offset → Prop) (found : Option Offset) : Prop :=
  ∀ stop, found = some stop → region stop

section FoundIn

variable {region : Offset → Prop} {stop : Offset}

theorem foundIn_none : FoundIn region none :=
  fun _ found => nomatch found

theorem foundIn_some (inRegion : region stop) :
    FoundIn region (some stop) := by
  intro other found
  cases found
  exact inRegion

theorem foundIn_settle {owed : Nat} (inRegion : region stop) :
    FoundIn region (settle owed stop) := by
  unfold settle
  split
  · exact foundIn_some inRegion
  · exact foundIn_none

end FoundIn

section Parts

variable {setting : Setting} {region : Offset → Prop}
  {allowed : Element × Offset → Prop}
  {acceptable : Element × Offset → Option Offset → Prop}

theorem meets_inTurn
    (replies : ∀ question found, region question.2 →
      acceptable question found → FoundIn region found)
    {elements : List Element} {start : Offset} (inRegion : region start)
    (permitted : ∀ part ∈ elements, ∀ begin, region begin →
      allowed (part, begin)) :
    (inTurn askMatch elements start).Meets allowed acceptable
      (FoundIn region) := by
  induction elements generalizing start with
  | nil =>
      exact foundIn_some inRegion
  | cons head tail inductionHypothesis =>
      refine Inquiry.meets_bind <| Inquiry.meets_question
        (permitted head List.mem_cons_self start inRegion) ?_
      intro found accepted
      cases found with
      | none =>
          exact foundIn_none
      | some middle =>
          have middleIn := replies _ _ inRegion accepted middle rfl
          exact inductionHypothesis middleIn fun part member =>
            permitted part (List.mem_cons_of_mem head member)

theorem meets_firstOf
    (replies : ∀ question found, region question.2 →
      acceptable question found → FoundIn region found)
    {elements : List Element} {start : Offset} (inRegion : region start)
    (permitted : ∀ part ∈ elements, allowed (part, start)) :
    (firstOf askMatch elements start).Meets allowed acceptable
      (FoundIn region) := by
  induction elements with
  | nil =>
      exact foundIn_none
  | cons head tail inductionHypothesis =>
      refine Inquiry.meets_bind <| Inquiry.meets_question
        (permitted head List.mem_cons_self) ?_
      intro found accepted
      cases found with
      | none =>
          exact inductionHypothesis fun part member =>
            permitted part (List.mem_cons_of_mem head member)
      | some stop =>
          exact replies _ _ inRegion accepted

theorem meets_again
    (replies : ∀ question found, region question.2 →
      acceptable question found → FoundIn region found)
    {body : Element} {rounds owed : Nat} {start : Offset}
    (inRegion : region start)
    (permitted : ∀ begin, region begin → allowed (body, begin)) :
    (again setting (askMatch body) rounds owed start).Meets allowed acceptable
      (FoundIn region) := by
  induction rounds generalizing owed start with
  | zero =>
      exact foundIn_settle inRegion
  | succ rounds inductionHypothesis =>
      refine Inquiry.meets_bind <| Inquiry.meets_question
        (permitted start inRegion) ?_
      intro found accepted
      cases found with
      | none =>
          exact foundIn_settle inRegion
      | some stop =>
          have stopIn := replies _ _ inRegion accepted stop rfl
          dsimp only
          split
          · exact foundIn_settle stopIn
          · split
            · exact foundIn_some stopIn
            · exact inductionHypothesis stopIn

end Parts

section Inquiry

variable {setting : Setting} {offset : Offset}

/-- Matching an occurrence in a region asks for matches in the region only, of
the elements right below. -/
theorem meets_inquiry_foundIn
    {region : Offset → Prop}
    {acceptable : Element × Offset → Option Offset → Prop}
    (occurrence : Occurrence)
    (retained : setting.Retains region)
    (replies : ∀ question found, region question.2 →
      acceptable question found → FoundIn region found)
    (inRegion : region offset) :
    (inquiry setting occurrence.element offset).Meets
      (fun question =>
        (∃ part, Below setting.grammar occurrence part ∧
          part.element = question.1) ∧ region question.2)
      acceptable (FoundIn region) := by
  have constituent : ∀ part ∈ occurrence.element.children,
      ∃ child, Below setting.grammar occurrence child ∧
        child.element = part := by
    intro part member
    rw [← Occurrence.map_element_children] at member
    obtain ⟨child, childMember, isElement⟩ := List.mem_map.mp member
    exact ⟨child, .constituent childMember, isElement⟩
  obtain ⟨tree, index, element⟩ := occurrence
  unfold inquiry level
  cases element with
  | terminal value =>
      refine Inquiry.meets_lift ?_
      intro found result stop isStop
      subst isStop
      exact retained value offset stop inRegion result
  | reference name =>
      refine Inquiry.meets_bind <| Inquiry.meets_lift ?_
      intro rule resolved
      refine Inquiry.meets_question
        ⟨⟨_, .meaning rfl (ruleOf_of_resolve resolved), rfl⟩, inRegion⟩ ?_
      intro found accepted
      exact replies _ _ inRegion accepted
  | sequence parts =>
      exact meets_inTurn replies inRegion fun part member begin beginIn =>
        ⟨constituent part member, beginIn⟩
  | alternation branches =>
      exact meets_firstOf replies inRegion fun part member =>
        ⟨constituent part member, inRegion⟩
  | option body =>
      have operand := constituent body (List.mem_singleton_self body)
      refine Inquiry.meets_bind <| Inquiry.meets_question
        ⟨operand, inRegion⟩ ?_
      intro found accepted
      cases found with
      | none => exact foundIn_some inRegion
      | some stop => exact replies _ _ inRegion accepted
  | repetition bounds body =>
      have operand := constituent body (List.mem_singleton_self body)
      exact meets_again replies inRegion fun begin beginIn =>
        ⟨operand, beginIn⟩

theorem EndsInside.earlier
    {start later : Offset} {found : Option Offset}
    (ends : EndsInside setting later found) (ordered : start ≤ later) :
    EndsInside setting start found := by
  intro stop isStop
  obtain ⟨after, inside⟩ := ends stop isStop
  exact ⟨UInt64.le_trans ordered after, inside⟩

theorem meets_inquiry
    (occurrence : Occurrence) (fits : setting.Addressable)
    (inside : offset.toNat ≤ setting.input.size) :
    (inquiry setting occurrence.element offset).Meets
      (Asks setting occurrence offset)
      (fun question => EndsInside setting question.2)
      (EndsInside setting offset) := by
  have replies : ∀ (question : Element × Offset) (found : Option Offset),
      offset ≤ question.2 ∧ question.2.toNat ≤ setting.input.size →
      EndsInside setting question.2 found →
      FoundIn (fun stop => offset ≤ stop ∧ stop.toNat ≤ setting.input.size)
        found :=
    fun question found inRegion ends => ends.earlier inRegion.1
  refine Inquiry.meets_widen (meets_inquiry_foundIn occurrence
    ((setting.upward_from offset).retains fits) replies
    ⟨UInt64.le_refl offset, inside⟩) ?_
  intro question asked
  exact ⟨asked.1, asked.2.1, asked.2.2⟩

/-- Greedy matching does not leave a region. -/
theorem evaluate_upholds_foundIn
    {region : Offset → Prop} (room depth : Nat) {element : Element}
    (retained : setting.Retains region) (inRegion : region offset) :
    Upholds (fun _ => True) (evaluate setting room depth element offset)
      (FoundIn region) := by
  induction room generalizing depth element offset with
  | zero =>
      exact upholds_throw
  | succ room inductionHypothesis =>
      have inquired : Upholds (fun _ => True)
          ((inquiry setting element offset).carryOut fun question =>
            evaluate setting room (depth + 1) question.1 question.2)
          (FoundIn region) :=
        Inquiry.carryOut_upholds
          (meets_inquiry_foundIn (.root .tested element) retained
            (fun _ _ _ found => found) inRegion)
          fun _ asked => inductionHypothesis (depth + 1) asked.2
      intro trace _
      refine ⟨trivial, ?_⟩
      intro found returned
      rw [outcome_evaluate] at returned
      exact (inquired trace trivial).2 found returned

/-- Whatever greedy matching finds from an offset of the input lies between
there and the end of the input. -/
theorem evaluate_upholds_inside
    (room depth : Nat) {element : Element}
    (fits : setting.Addressable)
    (inside : offset.toNat ≤ setting.input.size) :
    Upholds (fun _ => True) (evaluate setting room depth element offset)
      (EndsInside setting offset) :=
  evaluate_upholds_foundIn room depth
    ((setting.upward_from offset).retains fits)
    ⟨UInt64.le_refl offset, inside⟩

end Inquiry

/-! ## Faults -/

section Silent

variable {setting : Setting}

theorem silent_inTurn (elements : List Element) (start : Offset) :
    (inTurn askMatch elements start).Silent := by
  induction elements generalizing start with
  | nil =>
      exact Inquiry.silent_pure _
  | cons head tail inductionHypothesis =>
      refine Inquiry.silent_bind (Inquiry.silent_question _) ?_
      intro found
      cases found with
      | none => exact Inquiry.silent_pure _
      | some middle => exact inductionHypothesis middle

theorem silent_firstOf (elements : List Element) (start : Offset) :
    (firstOf askMatch elements start).Silent := by
  induction elements with
  | nil =>
      exact Inquiry.silent_pure _
  | cons head tail inductionHypothesis =>
      refine Inquiry.silent_bind (Inquiry.silent_question _) ?_
      intro found
      cases found with
      | none => exact inductionHypothesis
      | some stop => exact Inquiry.silent_pure _

theorem silent_again
    (body : Element) (rounds owed : Nat) (start : Offset) :
    (again setting (askMatch body) rounds owed start).Silent := by
  induction rounds generalizing owed start with
  | zero =>
      exact Inquiry.silent_pure _
  | succ rounds inductionHypothesis =>
      refine Inquiry.silent_bind (Inquiry.silent_question _) ?_
      intro found
      cases found with
      | none =>
          exact Inquiry.silent_pure _
      | some stop =>
          dsimp only
          split
          · exact Inquiry.silent_pure _
          · split
            · exact Inquiry.silent_pure _
            · exact inductionHypothesis _ _

end Silent

/-- The inquiry of an element raises no fault but that the element cannot be
evaluated. -/
theorem denies_of_raises
    {setting : Setting} {element : Element} {offset : Offset} {cause : Fault}
    (raises : (inquiry setting element offset).Raises cause) :
    setting.Denies offset element cause := by
  unfold inquiry level at raises
  cases element with
  | terminal value =>
      exact .slice (Inquiry.raises_lift_iff.mp raises)
  | reference name =>
      rcases Inquiry.raises_of_bind raises with early | ⟨rule, late⟩
      · exact .rule (Inquiry.raises_lift_iff.mp early)
      · exact absurd late (Inquiry.silent_question _ cause)
  | sequence parts =>
      exact absurd raises (silent_inTurn parts offset cause)
  | alternation branches =>
      exact absurd raises (silent_firstOf branches offset cause)
  | option body =>
      refine absurd raises (Inquiry.silent_bind
        (Inquiry.silent_question _) ?_ cause)
      intro found
      cases found <;> exact Inquiry.silent_pure _
  | repetition bounds body =>
      exact absurd raises (silent_again body _ _ offset cause)

/-- From an offset of the input, greedy matching stops with no other fault than
that a rule is missing or that all levels, those in use and those that were
still allowed, are used up. -/
theorem fault_of_evaluate
    {setting : Setting} {room depth : Nat} {element : Element}
    {offset : Offset} {trace : Trace} {cause : Fault}
    (fits : setting.Addressable)
    (inside : offset.toNat ≤ setting.input.size)
    (failed :
      (perform (evaluate setting room depth element offset) trace).1 =
        .error cause) :
    cause = .tooDeep (depth + room) ∨ cause.IsUnresolved := by
  induction room generalizing depth element offset trace with
  | zero =>
      cases failed
      exact Or.inl rfl
  | succ room inductionHypothesis =>
      rw [outcome_evaluate] at failed
      have source := Inquiry.fault_of_carryOut
        (meets_inquiry (.root .tested element) fits inside)
        (fun question asks =>
          evaluate_upholds_inside room (depth + 1) fits asks.inside)
        trivial failed
      rcases source with raises | ⟨question, before, asks, _, answered⟩
      · exact Or.inr ((denies_of_raises raises).isUnresolved inside)
      · have faults := inductionHypothesis asks.inside answered
        rw [Nat.add_assoc, Nat.add_comm 1] at faults
        exact faults

end AbnfMatching.Greedy
