import AbnfMatching.Proofs.Calls

/-!
# Rounds that come to an end

A repetition takes turns: each one may accept the frontier, and then either ends
the repetition or makes a round that leads from the frontier to the next one.
Past the minimum, a turn that does not end the repetition accepts an offset that
was not accepted before. There are only as many of these as there are places
from the start of the repetition to the end of the input. A repetition therefore
ends by itself, whether the number of its rounds is limited or not.
-/

namespace AbnfMatching

namespace Ends

variable {left right : Ends}

@[simp]
theorem none_union : Ends.none.union right = right :=
  eq_of_offsets_eq rfl

@[simp]
theorem union_none : left.union .none = left := by
  apply eq_of_mem_iff
  simp

theorem union_eq_left_iff :
    left.union right = left ↔ ∀ stop ∈ right, stop ∈ left := by
  constructor
  · intro same stop member
    rw [← same, mem_union]
    exact Or.inr member
  · intro included
    apply eq_of_mem_iff
    intro stop
    rw [mem_union]
    exact ⟨fun member => member.elim id (included stop), Or.inl⟩

end Ends

namespace Exhaustive

/-! ## Turns -/

/-- What is accepted once `count` rounds have led to the frontier, which counts
if they are enough. -/
def acceptedAfter
    (bounds : Bounds) (count : Nat) (accepted frontier : Ends) : Ends :=
  if bounds.minimum ≤ count then accepted.union frontier else accepted

/-- No further round is made: no more are allowed, or there is nothing to start
from. -/
def IsOver (bounds : Bounds) (count : Nat) (frontier : Ends) : Prop :=
  bounds.maximum = some count ∨ frontier.isEmpty = true

/-- The turns that a repetition takes when `count` rounds have led to the
frontier, and what it comes to. It is over, or its operand stops it with a
fault, or the next round is enough of them and reaches nothing new, or there is
another turn. Nothing else ends it, in particular no number of turns. -/
inductive Turns (item : Offset → ExhaustiveM Ends) (bounds : Bounds) :
    (count : Nat) → (accepted frontier : Ends) → (memory : Memory) →
      (turns : Nat) → (outcome : Except Fault Ends × Memory) → Prop
  | over {count : Nat} {accepted frontier : Ends} {memory : Memory} :
      IsOver bounds count frontier →
      Turns item bounds count accepted frontier memory 1
        (.ok (acceptedAfter bounds count accepted frontier), memory)
  | stopped {count : Nat} {accepted frontier : Ends}
      {memory later : Memory} {cause : Fault} :
      ¬ IsOver bounds count frontier →
      perform (fromAny item frontier.offsets) memory = (.error cause, later) →
      Turns item bounds count accepted frontier memory 1 (.error cause, later)
  | settled {count : Nat} {accepted frontier next : Ends}
      {memory later : Memory} :
      ¬ IsOver bounds count frontier →
      perform (fromAny item frontier.offsets) memory = (.ok next, later) →
      bounds.minimum ≤ count →
      (∀ stop ∈ next, stop ∈ acceptedAfter bounds count accepted frontier) →
      Turns item bounds count accepted frontier memory 1
        (.ok (acceptedAfter bounds count accepted frontier), later)
  | further {count turns : Nat} {accepted frontier next : Ends}
      {memory middle : Memory} {outcome : Except Fault Ends × Memory} :
      ¬ IsOver bounds count frontier →
      perform (fromAny item frontier.offsets) memory = (.ok next, middle) →
      (bounds.minimum ≤ count →
        ∃ stop ∈ next,
          stop ∉ acceptedAfter bounds count accepted frontier) →
      Turns item bounds (count + 1)
        (acceptedAfter bounds count accepted frontier) next middle turns
        outcome →
      Turns item bounds count accepted frontier memory (turns + 1) outcome

section Turns

variable {item : Offset → ExhaustiveM Ends} {bounds : Bounds}
  {invariant : Memory → Prop} {region : Offset → Prop} {most : Nat}

theorem extend_of_isEmpty
    {left : Option Nat} {accepted frontier : Ends}
    (empty : frontier.isEmpty = true) :
    extend item left accepted frontier = pure accepted := by
  have nothing : frontier.offsets = [] := List.isEmpty_iff.mp empty
  by_cases filled : left = some 0
  · rw [filled, extend_filled]
  · rw [extend_round filled, nothing]
    simp [fromAny]

/-- If the operand does not leave a region, then neither does a round. -/
theorem fromAny_upholds_lieIn
    {starts : List Offset}
    (retained : ∀ start, region start →
      Upholds invariant (item start) (Ends.LieIn region))
    (inRegion : ∀ start ∈ starts, region start) :
    Upholds invariant (fromAny item starts) (Ends.LieIn region) := by
  induction starts with
  | nil =>
      exact upholds_pure Ends.lieIn_none
  | cons head tail inductionHypothesis =>
      rw [fromAny]
      refine upholds_bind (retained head (inRegion head List.mem_cons_self)) ?_
      intro first firstLies
      refine upholds_bind (inductionHypothesis fun start member =>
        inRegion start (List.mem_cons_of_mem head member)) ?_
      intro others othersLie
      exact upholds_pure (firstLies.union othersLie)

theorem not_isOver
    {count : Nat} {frontier : Ends}
    (within : ∀ limit ∈ bounds.maximum, count < limit)
    (nonempty : ¬ frontier.isEmpty = true) :
    ¬ IsOver bounds count frontier := by
  rintro (filled | empty)
  · exact absurd (within count filled) (Nat.lt_irrefl count)
  · exact nonempty empty

theorem acceptedAfter_of_le
    {count : Nat} {accepted frontier : Ends} (due : bounds.minimum ≤ count) :
    acceptedAfter bounds count accepted frontier =
      accepted.union frontier :=
  if_pos due

/-- A turn that makes a round is stopped in it, or is what it comes to from
there. -/
theorem exists_turns_of_round
    {count limit : Nat} {sofar frontier : Ends} {memory : Memory}
    {rest : Ends → ExhaustiveM Ends}
    (retained : ∀ start, region start →
      Upholds invariant (item start) (Ends.LieIn region))
    (lies : frontier.LieIn region) (sound : invariant memory)
    (goesOn : ¬ IsOver bounds count frontier) (positive : 0 < limit)
    (onward : ∀ next later,
      perform (fromAny item frontier.offsets) memory = (.ok next, later) →
      next.LieIn region → invariant later →
      ∃ turns, turns ≤ limit ∧
        Turns item bounds count sofar frontier memory turns
          (perform (rest next) later)) :
    ∃ turns, turns ≤ limit ∧
      Turns item bounds count sofar frontier memory turns
        (perform (fromAny item frontier.offsets >>= rest) memory) := by
  have upheld := fromAny_upholds_lieIn retained lies memory sound
  rw [perform_bind]
  generalize performed :
    perform (fromAny item frontier.offsets) memory = round at upheld ⊢
  obtain ⟨cause | next, later⟩ := round
  · exact ⟨1, positive, .stopped goesOn performed⟩
  · exact onward next later performed (upheld.2 next rfl) upheld.1

/-- Past the minimum, each turn but the last one accepts another offset, of
which there are only so many. -/
theorem exists_turns_of_extend
    {left : Option Nat} {count : Nat} {sofar accepted frontier : Ends}
    {memory : Memory}
    (retained : ∀ start, region start →
      Upholds invariant (item start) (Ends.LieIn region))
    (few : ∀ ends : Ends, ends.LieIn region → ends.offsets.length ≤ most)
    (due : bounds.minimum ≤ count)
    (within : ∀ limit ∈ bounds.maximum, count ≤ limit)
    (roundsLeft : bounds.remaining count = left)
    (accepts : acceptedAfter bounds count sofar frontier = accepted)
    (lies : accepted.LieIn region) (sound : invariant memory) :
    ∃ turns, turns ≤ most + 1 - accepted.offsets.length ∧
      Turns item bounds count sofar frontier memory turns
        (perform (extend item left accepted frontier) memory) := by
  have sizes := few accepted lies
  induction left, accepted, frontier using extend.induct
    generalizing count sofar memory with
  | case1 accepted frontier =>
      subst accepts
      rw [extend_filled]
      have filled := Bounds.maximum_of_remaining within roundsLeft
      exact ⟨1, by omega, .over (Or.inl filled)⟩
  | case2 left accepted frontier unfilled inductionHypothesis =>
      subst accepts roundsLeft
      by_cases empty : frontier.isEmpty = true
      · rw [extend_of_isEmpty empty]
        exact ⟨1, by omega, .over (Or.inr empty)⟩
      have before := Bounds.lt_of_remaining within unfilled
      have goesOn := not_isOver before empty
      have frontierLies : frontier.LieIn region := by
        intro start member
        apply lies
        rw [acceptedAfter_of_le due, Ends.mem_union]
        exact Or.inr member
      rw [extend_round unfilled]
      apply exists_turns_of_round retained frontierLies sound goesOn (by omega)
      intro next later performed nextLies soundLater
      by_cases settled :
        (acceptedAfter bounds count sofar frontier).union next =
          acceptedAfter bounds count sofar frontier
      · rw [if_pos settled]
        exact ⟨1, by omega, .settled goesOn performed due
          (Ends.union_eq_left_iff.mp settled)⟩
      · rw [if_neg settled]
        have unionLies := lies.union nextLies
        have atMost := few _ unionLies
        have larger := Ends.length_lt_length_union settled
        have another : ∃ stop ∈ next,
            stop ∉ acceptedAfter bounds count sofar frontier := by
          by_contra nothingNew
          push Not at nothingNew
          exact settled (Ends.union_eq_left_iff.mpr nothingNew)
        obtain ⟨turns, bounded, onward⟩ :=
          inductionHypothesis next settled (Nat.le_succ_of_le due) before
            Bounds.remaining_succ
            (acceptedAfter_of_le (Nat.le_succ_of_le due)) unionLies
            soundLater atMost
        exact ⟨turns + 1, by omega,
          .further goesOn performed (fun _ => another) onward⟩

/-- Before the minimum, one turn after the other makes a round. -/
theorem exists_turns_of_advance
    {rounds count : Nat} {frontier : Ends} {memory : Memory}
    (retained : ∀ start, region start →
      Upholds invariant (item start) (Ends.LieIn region))
    (few : ∀ ends : Ends, ends.LieIn region → ends.offsets.length ≤ most)
    (positive : 0 < most)
    (owed : count + rounds = bounds.minimum)
    (lies : frontier.LieIn region) (sound : invariant memory) :
    ∃ turns, turns ≤ rounds + most ∧
      Turns item bounds count .none frontier memory turns
        (perform
          (do
            let reached ← advance item rounds frontier
            extend item (bounds.remaining bounds.minimum) reached reached)
          memory) := by
  induction rounds generalizing count frontier memory with
  | zero =>
      obtain rfl : count = bounds.minimum := owed
      have accepts : acceptedAfter bounds bounds.minimum .none frontier =
          frontier := by
        rw [acceptedAfter_of_le (Nat.le_refl _), Ends.none_union]
      rw [advance, pure_bind]
      by_cases empty : frontier.isEmpty = true
      · have ended : Turns item bounds bounds.minimum .none frontier memory 1
            _ :=
          .over (Or.inr empty)
        rw [accepts] at ended
        rw [extend_of_isEmpty empty]
        exact ⟨1, by omega, ended⟩
      · obtain ⟨turns, bounded, made⟩ :=
          exists_turns_of_extend retained few (Nat.le_refl _)
            bounds.minimum_le rfl accepts lies sound
        have nonempty : 0 < frontier.offsets.length :=
          List.length_pos_of_ne_nil fun nothing =>
            empty (List.isEmpty_iff.mpr nothing)
        exact ⟨turns, by omega, made⟩
  | succ rounds inductionHypothesis =>
      have early : ¬ bounds.minimum ≤ count := by
        omega
      have accepts : acceptedAfter bounds count .none frontier = .none :=
        if_neg early
      rw [advance]
      by_cases empty : frontier.isEmpty = true
      · rw [if_pos empty, pure_bind, extend_of_isEmpty rfl]
        have ended : Turns item bounds count .none frontier memory 1 _ :=
          .over (Or.inr empty)
        rw [accepts] at ended
        exact ⟨1, by omega, ended⟩
      have before : ∀ limit ∈ bounds.maximum, count < limit := by
        intro limit limited
        have atLeast := bounds.minimum_le limit limited
        omega
      have goesOn := not_isOver before empty
      have stillOwed : count + 1 + rounds = bounds.minimum := by
        omega
      rw [if_neg empty, bind_assoc]
      apply exists_turns_of_round retained lies sound goesOn (by omega)
      intro next later performed nextLies soundLater
      obtain ⟨turns, bounded, onward⟩ :=
        inductionHypothesis stillOwed nextLies soundLater
      rw [← accepts] at onward
      exact ⟨turns + 1, by omega,
        .further goesOn performed (fun due => absurd due early) onward⟩

end Turns

/-! ## Repetitions of a match -/

/-- The offset lies between the origin and the end of the input. -/
def IsAhead (setting : Setting) (origin offset : Offset) : Prop :=
  origin ≤ offset ∧ offset.toNat ≤ setting.input.size

section IsAhead

variable {setting : Setting} {subject : Element} {origin : Offset}

theorem length_le_of_isAhead
    {ends : Ends} (lies : ends.LieIn (IsAhead setting origin)) :
    ends.offsets.length ≤ setting.input.size - origin.toNat + 1 := by
  have bounded := Ends.length_le fun stop member =>
    ⟨UInt64.le_iff_toNat_le.mp (lies stop member).1, (lies stop member).2⟩
  omega

theorem visit_upholds_isAhead
    {room : Nat} {active : List Visit} {part : Occurrence} {start : Offset}
    (fits : setting.Addressable)
    (placed : part.Placed setting.grammar subject)
    (ahead : IsAhead setting origin start) :
    Upholds
      (FiledWell setting.grammar subject fun part start =>
        Bracketed setting (fun _ _ _ => False) (part, start))
      (visit setting room active part start)
      (Ends.LieIn (IsAhead setting origin)) := by
  intro memory sound
  obtain ⟨kept, found⟩ :=
    visit_sound room active fits placed ahead.2 memory sound
  refine ⟨kept, ?_⟩
  intro ends returned stop member
  have spans := (found ends returned).sound stop member
  exact ⟨UInt64.le_trans ahead.1 spans.ordered, spans.inside⟩

end IsAhead

namespace Call

/-- If the call evaluates a repetition, then turns of the repetition come to
what the call comes to, and past the minimum there are no more of them than
offsets from where the call starts to the end of the input. -/
def RoundsEnd (setting : Setting) (call : Call) : Prop :=
  ∀ bounds body room,
    call.occurrence.element = .repetition bounds body →
    call.Fresh →
    call.room = room + 1 →
    ∃ turns result,
      turns ≤ bounds.minimum +
        (setting.input.size - call.offset.toNat + 1) ∧
      Turns
        (visit setting room
          (call.occurrence.visitAt call.offset :: call.active)
          ⟨call.occurrence.tree, call.occurrence.index + 1, body⟩)
        bounds 0 .none (.single call.offset) call.memory turns result ∧
      call.outcome setting = result.1

theorem Sound.roundsEnd
    {setting : Setting} {subject : Element} {origin : Offset} {call : Call}
    (sound : call.Sound setting subject origin)
    (fits : setting.Addressable) :
    call.RoundsEnd setting := by
  intro bounds body room shape fresh levels
  have below : Below setting.grammar call.occurrence
      ⟨call.occurrence.tree, call.occurrence.index + 1, body⟩ := by
    apply Below.constituent
    rw [call.occurrence.children_of_operand (by rw [shape]; rfl)]
    exact List.mem_singleton_self _
  obtain ⟨turns, bounded, made⟩ := exists_turns_of_advance
    (fun _ ahead => visit_upholds_isAhead fits (sound.placed.below below) ahead)
    (fun _ => length_le_of_isAhead) (Nat.succ_pos _)
    (Nat.zero_add bounds.minimum)
    (Ends.lieIn_single ⟨UInt64.le_refl call.offset, sound.inside⟩)
    sound.sound
  refine ⟨turns, _, bounded, made, ?_⟩
  rw [fresh.outcome_eq levels, carryOut_inquiry, level, shape]

end Call

end Exhaustive

end AbnfMatching
