import AbnfMatching.Proofs.Faults

/-!
# Regions that a match does not leave

A match moves on where a terminal ends and nowhere else. A region of offsets in
which the terminals that match there also end is therefore never left: all ends
that are found from an offset of the region lie in it, and no entry of the table
is made for a visit outside of it. Such a region is, for example, one that
contains every later offset of the input along with an offset.
-/

namespace AbnfMatching

namespace Ends

variable {region : Offset → Prop} {ends others : Ends}

/-- All ends lie in the region. -/
def LieIn (region : Offset → Prop) (ends : Ends) : Prop :=
  ∀ stop ∈ ends, region stop

theorem lieIn_none : none.LieIn region :=
  fun stop member => absurd member (not_mem_none stop)

theorem lieIn_single {offset : Offset} (inRegion : region offset) :
    (single offset).LieIn region := by
  intro stop member
  rw [mem_single.mp member]
  exact inRegion

theorem LieIn.union (first : ends.LieIn region) (second : others.LieIn region) :
    (ends.union others).LieIn region := by
  intro stop member
  rcases mem_union.mp member with inFirst | inSecond
  · exact first stop inFirst
  · exact second stop inSecond

end Ends

/-- A region of the input that contains every later offset along with an
offset. -/
structure Setting.Upward (setting : Setting) (region : Offset → Prop) :
    Prop where
  inside : ∀ offset, region offset → offset.toNat ≤ setting.input.size
  later : ∀ start stop, region start → start ≤ stop →
    stop.toNat ≤ setting.input.size → region stop

/-- A terminal that matches in the region also ends there. -/
def Setting.Retains (setting : Setting) (region : Offset → Prop) : Prop :=
  ∀ value start stop, region start →
    setting.terminalEnd value start = .ok (some stop) → region stop

section Retains

variable {setting : Setting}

theorem Setting.upward_from (setting : Setting) (offset : Offset) :
    setting.Upward fun stop =>
      offset ≤ stop ∧ stop.toNat ≤ setting.input.size := by
  constructor
  · intro start inRegion
    exact inRegion.2
  · intro start stop inRegion ordered inside
    exact ⟨UInt64.le_trans inRegion.1 ordered, inside⟩

theorem Setting.Upward.retains
    {region : Offset → Prop}
    (upward : setting.Upward region) (fits : setting.Addressable) :
    setting.Retains region := by
  intro value start stop inRegion found
  have spans :=
    (terminalEnd_eq_some_iff fits (upward.inside start inRegion)).mp found
  exact upward.later start stop inRegion spans.ordered spans.inside

end Retains

namespace Exhaustive

open Ends (LieIn lieIn_none lieIn_single)

section Parts

variable {region : Offset → Prop} {allowed : Occurrence × Offset → Prop}

theorem meets_askAll_lieIn
    {questions : List (Occurrence × Offset)}
    (permitted : ∀ question ∈ questions, allowed question) :
    (askAll questions).Meets allowed (fun _ => LieIn region)
      (LieIn region) := by
  induction questions with
  | nil =>
      exact lieIn_none
  | cons head tail inductionHypothesis =>
      refine Inquiry.meets_bind <|
        Inquiry.meets_question (permitted head List.mem_cons_self) ?_
      intro first firstLies
      refine Inquiry.meets_bind <| Inquiry.meets_mono
        (inductionHypothesis fun question member =>
          permitted question (List.mem_cons_of_mem head member)) ?_
      intro others othersLie
      exact firstLies.union othersLie

theorem meets_fromAny_lieIn
    {part : Occurrence} {starts : List Offset}
    (permitted : ∀ start ∈ starts, allowed (part, start)) :
    (fromAny (askVisit part) starts).Meets allowed (fun _ => LieIn region)
      (LieIn region) := by
  rw [fromAny_askVisit]
  exact meets_askAll_lieIn (by simpa using permitted)

theorem meets_inTurn_lieIn
    {occurrences : List Occurrence} {current : Ends}
    (lies : current.LieIn region)
    (permitted : ∀ part ∈ occurrences, ∀ start, region start →
      allowed (part, start)) :
    (inTurn askVisit occurrences current).Meets allowed
      (fun _ => LieIn region) (LieIn region) := by
  induction occurrences generalizing current with
  | nil =>
      exact lies
  | cons head tail inductionHypothesis =>
      rw [inTurn]
      split
      · exact lieIn_none
      · refine Inquiry.meets_bind <| Inquiry.meets_mono
          (meets_fromAny_lieIn fun start member =>
            permitted head List.mem_cons_self start (lies start member)) ?_
        intro next nextLies
        exact inductionHypothesis nextLies fun part member =>
          permitted part (List.mem_cons_of_mem head member)

/-- Rounds that begin in the region add ends from the region to those accepted
so far. -/
theorem meets_extend_lieIn
    {part : Occurrence} {left : Option Nat} {accepted frontier : Ends}
    (acceptedLies : accepted.LieIn region)
    (frontierLies : frontier.LieIn region)
    (permitted : ∀ start, region start → allowed (part, start)) :
    (extend (askVisit part) left accepted frontier).Meets allowed
      (fun _ => LieIn region)
      (fun ends => ends.LieIn region ∧ ∀ stop ∈ accepted, stop ∈ ends) := by
  induction left, accepted, frontier using extend.induct with
  | case1 accepted frontier =>
      rw [extend_filled]
      exact ⟨acceptedLies, fun _ member => member⟩
  | case2 left accepted frontier unfilled inductionHypothesis =>
      rw [extend_round unfilled]
      refine Inquiry.meets_bind <| Inquiry.meets_mono
        (meets_fromAny_lieIn fun start member =>
          permitted start (frontierLies start member)) ?_
      intro next nextLies
      by_cases settled : accepted.union next = accepted
      · rw [if_pos settled]
        exact ⟨acceptedLies, fun _ member => member⟩
      · rw [if_neg settled]
        refine Inquiry.meets_mono
          (inductionHypothesis next settled (acceptedLies.union nextLies)
            nextLies) ?_
        intro ends found
        refine ⟨found.1, ?_⟩
        intro stop member
        exact found.2 stop (Ends.mem_union.mpr (Or.inl member))

theorem meets_anyOf_lieIn
    {occurrences : List Occurrence} {offset : Offset}
    (permitted : ∀ part ∈ occurrences, allowed (part, offset)) :
    (anyOf askVisit occurrences offset).Meets allowed
      (fun _ => LieIn region) (LieIn region) := by
  rw [anyOf_askVisit]
  exact meets_askAll_lieIn (by simpa using permitted)

theorem meets_repetition_lieIn
    {part : Occurrence} {minimum : Nat} {left : Option Nat} {start : Ends}
    (lies : start.LieIn region)
    (permitted : ∀ start, region start → allowed (part, start)) :
    (do
      let reached ← advance (askVisit part) minimum start
      extend (askVisit part) left reached reached : Inquiry _ _ _).Meets
      allowed (fun _ => LieIn region) (LieIn region) := by
  rw [advance_eq_inTurn]
  refine Inquiry.meets_bind <| Inquiry.meets_mono
    (meets_inTurn_lieIn lies ?_) ?_
  · intro copy member start inRegion
    rw [List.eq_of_mem_replicate member]
    exact permitted start inRegion
  · intro reached reachedLies
    exact Inquiry.meets_mono
      (meets_extend_lieIn reachedLies reachedLies permitted)
      fun _ found => found.1

/-- Evaluating an occurrence in a region asks for visits in the region only, of
the occurrences right below. -/
theorem meets_inquiry_lieIn
    {setting : Setting} {occurrence : Occurrence} {offset : Offset}
    (retained : setting.Retains region) (inRegion : region offset) :
    (inquiry setting occurrence offset).Meets
      (fun question =>
        Below setting.grammar occurrence question.1 ∧ region question.2)
      (fun _ => LieIn region) (LieIn region) := by
  have operand : ∀ body : Element, occurrence.element.children = [body] →
      Below setting.grammar occurrence
        ⟨occurrence.tree, occurrence.index + 1, body⟩ := by
    intro body sole
    apply Below.constituent
    rw [occurrence.children_of_operand sole]
    exact List.mem_singleton_self _
  obtain ⟨tree, index, element⟩ := occurrence
  unfold inquiry level
  cases element with
  | terminal value =>
      refine Inquiry.meets_bind <| Inquiry.meets_lift ?_
      intro found result
      cases found with
      | none => exact lieIn_none
      | some stop =>
          exact lieIn_single (retained value offset stop inRegion result)
  | reference name =>
      refine Inquiry.meets_bind <| Inquiry.meets_lift ?_
      intro rule resolved
      have meaning := ruleOf_of_resolve resolved
      exact Inquiry.meets_question ⟨.meaning rfl meaning, inRegion⟩
        fun _ lies => lies
  | sequence parts =>
      exact meets_inTurn_lieIn (lieIn_single inRegion)
        fun part member start startIn => ⟨.constituent member, startIn⟩
  | alternation branches =>
      exact meets_anyOf_lieIn
        fun part member => ⟨.constituent member, inRegion⟩
  | option body =>
      refine Inquiry.meets_bind <| Inquiry.meets_question
        ⟨operand body rfl, inRegion⟩ ?_
      intro found foundLies
      exact foundLies.union (lieIn_single inRegion)
  | repetition bounds body =>
      exact meets_repetition_lieIn (lieIn_single inRegion)
        fun start startIn => ⟨operand body rfl, startIn⟩

end Parts

/-- A memory in which every entry for a visit in the region has ends there, and
which has the entries of the original one for all other visits. -/
structure Confined
    (region : Offset → Prop) (original memory : Memory) : Prop where
  within : ∀ visit ends, region visit.offset →
    memory.table.find? visit = some ends → ends.LieIn region
  elsewhere : ∀ visit, ¬ region visit.offset →
    memory.table.find? visit = original.table.find? visit

section Confined

variable {region : Offset → Prop} {original memory later : Memory}

theorem confined_empty {trace : Trace} :
    Confined region ⟨.empty, trace⟩ ⟨.empty, trace⟩ := by
  refine ⟨?_, fun _ _ => rfl⟩
  intro visit ends _ filed
  rw [Table.find?_empty] at filed
  cases filed

theorem Confined.insert
    {visit : Visit} {ends : Ends}
    (confined : Confined region original memory)
    (inRegion : region visit.offset) (lies : ends.LieIn region)
    (table : later.table = memory.table.insert visit ends) :
    Confined region original later := by
  constructor
  · intro other found otherIn filed
    rw [table, Table.find?_insert] at filed
    split at filed
    · cases filed
      exact lies
    · exact confined.within other found otherIn filed
  · intro other outside
    have different : visit ≠ other := by
      intro same
      exact outside (same ▸ inRegion)
    rw [table, Table.find?_insert, if_neg different]
    exact confined.elsewhere other outside

/-- A visit in a region leaves everything outside of the region alone and finds
ends in the region only. -/
theorem visit_confined
    {setting : Setting} {room : Nat} {active : List Visit}
    {occurrence : Occurrence} {offset : Offset}
    (retained : setting.Retains region) (inRegion : region offset) :
    Upholds (Confined region original)
      (visit setting room active occurrence offset) (LieIn region) := by
  have ofFiled : ∀ (part : Occurrence) (start : Offset), region start →
      ∀ memory ends, Confined region original memory →
      memory.table.find? (part.visitAt start) = some ends →
      ends.LieIn region :=
    fun part start startIn memory ends confined =>
      confined.within (part.visitAt start) ends startIn
  induction room generalizing active occurrence offset with
  | zero =>
      rw [visit]
      exact upholds_consult (ofFiled occurrence offset inRegion)
        (fun _ => lieIn_none) fun _ => upholds_throw
  | succ room inductionHypothesis =>
      rw [visit_succ]
      refine upholds_consult (ofFiled occurrence offset inRegion)
        (fun _ => lieIn_none) ?_
      intro _ memory confined
      have inquired : Upholds (Confined region original)
          ((inquiry setting occurrence offset).carryOut fun question =>
            visit setting room (occurrence.visitAt offset :: active)
              question.1 question.2) (LieIn region) :=
        Inquiry.carryOut_upholds (meets_inquiry_lieIn retained inRegion)
          fun _ asked => inductionHypothesis asked.2
      obtain ⟨confinedLater, reached⟩ := inquired memory confined
      rw [perform_evaluate]
      generalize perform
        ((inquiry setting occurrence offset).carryOut fun question =>
          visit setting room (occurrence.visitAt offset :: active)
            question.1 question.2) memory = performed
        at confinedLater reached ⊢
      obtain ⟨cause | found, later⟩ := performed
      · refine ⟨confinedLater, ?_⟩
        intro ends returned
        cases returned
      · have lies := reached found rfl
        refine ⟨confinedLater.insert inRegion lies table_completed, ?_⟩
        intro ends returned
        cases returned
        exact lies

end Confined

end Exhaustive

end AbnfMatching
