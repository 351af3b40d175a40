import AbnfMatching.Proofs.Places
import AbnfMatching.Proofs.Replies

/-!
# What one level of greedy matching finds

The end that greedy matching finds for an element is among those that the ends
found below lead to. In a repetition an empty round that ends the search early
stands for as many empty rounds as are still owed, and these could indeed have
been made.
-/

namespace AbnfMatching.Greedy

/-- The ends that acceptable replies report. -/
def replyReach
    (acceptable : Element × Offset → Option Offset → Prop) : Reach :=
  fun part start stop => acceptable (part.element, start) (some stop)

/-- The question for a match, its reply being the value. -/
def askMatch (element : Element) (start : Offset) :
    Inquiry (Element × Offset) (Option Offset) (Option Offset) :=
  .ask (element, start) pure

section Parts

variable {setting : Setting}
  {acceptable : Element × Offset → Option Offset → Prop}

theorem passes_of_inTurn
    {occurrences : List Occurrence} {start stop : Offset}
    (yields :
      (inTurn askMatch (occurrences.map Occurrence.element) start).Yields
        acceptable (some stop)) :
    Passes (replyReach acceptable) occurrences start stop := by
  induction occurrences generalizing start with
  | nil =>
      cases Inquiry.yields_pure_iff.mp yields
      rfl
  | cons head tail inductionHypothesis =>
      obtain ⟨found, reply, continues⟩ := Inquiry.yields_bind_iff.mp yields
      have accepted := Inquiry.yields_question_iff.mp reply
      cases found with
      | none =>
          cases Inquiry.yields_pure_iff.mp continues
      | some middle =>
          exact ⟨middle, accepted, inductionHypothesis continues⟩

theorem exists_of_firstOf
    {occurrences : List Occurrence} {start stop : Offset}
    (yields :
      (firstOf askMatch (occurrences.map Occurrence.element) start).Yields
        acceptable (some stop)) :
    ∃ part ∈ occurrences, replyReach acceptable part start stop := by
  induction occurrences with
  | nil =>
      cases Inquiry.yields_pure_iff.mp yields
  | cons head tail inductionHypothesis =>
      obtain ⟨found, reply, continues⟩ := Inquiry.yields_bind_iff.mp yields
      have accepted := Inquiry.yields_question_iff.mp reply
      cases found with
      | none =>
          obtain ⟨part, member, reached⟩ := inductionHypothesis continues
          exact ⟨part, List.mem_cons_of_mem head member, reached⟩
      | some end' =>
          cases Inquiry.yields_pure_iff.mp continues
          exact ⟨head, List.mem_cons_self, accepted⟩

/-- The rounds that a repetition makes or takes for made are no fewer than the
rounds owed and, unless more are owed, no more than the rounds allowed. -/
theorem passes_of_again
    (part : Occurrence) {rounds owed : Nat} {start stop : Offset}
    (yields :
      (again setting (askMatch part.element) rounds owed start).Yields
        acceptable (some stop)) :
    ∃ count, owed ≤ count ∧ count ≤ max owed rounds ∧
      Passes (replyReach acceptable) (List.replicate count part)
        start stop := by
  induction rounds generalizing owed start with
  | zero =>
      have settled := Inquiry.yields_pure_iff.mp yields
      unfold settle at settled
      split at settled
      · cases settled
        exact ⟨0, by omega, by omega, rfl⟩
      · cases settled
  | succ rounds inductionHypothesis =>
      obtain ⟨found, reply, continues⟩ := Inquiry.yields_bind_iff.mp yields
      have accepted := Inquiry.yields_question_iff.mp reply
      cases found with
      | none =>
          have settled := Inquiry.yields_pure_iff.mp continues
          unfold settle at settled
          split at settled
          · cases settled
            exact ⟨0, by omega, by omega, rfl⟩
          · cases settled
      | some middle =>
          dsimp only at continues
          split at continues
          · have settled := Inquiry.yields_pure_iff.mp continues
            unfold settle at settled
            split at settled
            · cases settled
              exact ⟨1, by omega, by omega, stop, accepted, rfl⟩
            · cases settled
          · split at continues
            · next stays =>
                cases Inquiry.yields_pure_iff.mp continues
                rw [stays] at accepted ⊢
                exact ⟨max 1 owed, by omega, by omega,
                  passes_replicate_self accepted _⟩
            · obtain ⟨count, atLeast, atMost, passes⟩ :=
                inductionHypothesis continues
              exact ⟨count + 1, by omega, by omega, middle, accepted, passes⟩

end Parts

/-- What greedy matching finds is among the ends to which the unfolding of the
replies leads. -/
theorem unfolds_of_inquiry
    {setting : Setting}
    {acceptable : Element × Offset → Option Offset → Prop}
    (occurrence : Occurrence) {start stop : Offset}
    (yields : (inquiry setting occurrence.element start).Yields
      acceptable (some stop)) :
    Unfolds setting (replyReach acceptable) occurrence start stop := by
  have elements := occurrence.map_element_children
  obtain ⟨tree, index, element⟩ := occurrence
  unfold inquiry level at yields
  unfold Unfolds
  cases element with
  | terminal value =>
      exact Inquiry.yields_lift_iff.mp yields
  | reference name =>
      obtain ⟨rule, resolved, continues⟩ := Inquiry.yields_bind_iff.mp yields
      have meaning :=
        ruleOf_of_resolve (Inquiry.yields_lift_iff.mp resolved)
      have accepted := Inquiry.yields_question_iff.mp continues
      exact ⟨rule, meaning, accepted⟩
  | sequence parts =>
      rw [Element.children] at elements
      rw [← elements] at yields
      exact passes_of_inTurn yields
  | alternation branches =>
      rw [Element.children] at elements
      rw [← elements] at yields
      exact exists_of_firstOf yields
  | option body =>
      have sole :=
        Occurrence.children_of_operand ⟨tree, index, .option body⟩ rfl
      simp only [sole, List.mem_singleton, exists_eq_left]
      obtain ⟨found, reply, continues⟩ := Inquiry.yields_bind_iff.mp yields
      have accepted := Inquiry.yields_question_iff.mp reply
      cases found with
      | none =>
          cases Inquiry.yields_pure_iff.mp continues
          exact Or.inl rfl
      | some end' =>
          cases Inquiry.yields_pure_iff.mp continues
          exact Or.inr accepted
  | repetition bounds body =>
      have sole := Occurrence.children_of_operand
        ⟨tree, index, .repetition bounds body⟩ rfl
      simp only [sole, List.mem_singleton, exists_eq_left]
      obtain ⟨count, atLeast, atMost, passes⟩ :=
        passes_of_again ⟨tree, index + 1, body⟩ yields
      refine ⟨count, ⟨atLeast, ?_⟩, passes⟩
      intro limit isLimit
      have ordered := bounds.minimum_le limit isLimit
      simp only [Bounds.rounds, Option.mem_def.mp isLimit, Option.getD_some]
        at atMost
      omega

end AbnfMatching.Greedy
