import AbnfMatching.Proofs.Calls
import AbnfMatching.Proofs.RepetitionRounds

/-!
# Counted rounds

A repetition can be carried out by a loop that counts its rounds with a machine
word. Rounds do not lead back, so that past the minimum a round reaches nothing
new as soon as more rounds have been made than there are octets ahead. The loop
therefore ends before its count wraps around, however large the minimum is, and
it finds what exhaustive matching finds.
-/

namespace AbnfMatching

/-- The bounds are machine words. -/
structure Bounds.Wordwise (bounds : Bounds) : Prop where
  minimum : bounds.minimum < UInt64.size
  maximum : ∀ limit ∈ bounds.maximum, limit < UInt64.size

namespace Exhaustive

namespace Repeating

/-- The state of a repetition that counts its rounds with a machine word. -/
structure Tally where
  count : UInt64
  accepted : Ends
  frontier : Ends

/-- A turn of the loop either is the last one or leads to another. -/
inductive Turn where
  | stopped (ends : Ends)
  | next (tally : Tally)

/-- Enough rounds have been made to accept the frontier. -/
def Due (repeating : Repeating) (tally : Tally) : Prop :=
  UInt64.ofNat repeating.bounds.minimum ≤ tally.count

instance (repeating : Repeating) (tally : Tally) :
    Decidable (repeating.Due tally) :=
  inferInstanceAs (Decidable (_ ≤ _))

/-- The ends that are accepted once the frontier has been looked at. -/
def acceptedAt (repeating : Repeating) (tally : Tally) : Ends :=
  if repeating.Due tally then tally.accepted.union tally.frontier
  else tally.accepted

/-- The next round reaches accepted ends only. -/
def settles (repeating : Repeating) (tally : Tally) : Bool :=
  (repeating.round tally.frontier).offsets.all fun stop =>
    decide (stop ∈ repeating.acceptedAt tally)

/-- One turn of the loop. It is the last one if no more rounds are allowed, if
nothing is left to start from, or if enough rounds have been made and the next
one reaches accepted ends only. -/
def turn (repeating : Repeating) (tally : Tally) : Turn :=
  let accepted := repeating.acceptedAt tally
  if repeating.bounds.maximum.map UInt64.ofNat = some tally.count ∨
      tally.frontier.isEmpty then
    .stopped accepted
  else if repeating.Due tally ∧ repeating.settles tally then
    .stopped accepted
  else
    .next ⟨tally.count + 1, accepted, repeating.round tally.frontier⟩

/-- The state after a number of turns, if there are so many. -/
def tallyAfter (repeating : Repeating) : Nat → Option Tally
  | 0 => some ⟨0, .none, .single repeating.origin⟩
  | turns + 1 =>
      match repeating.tallyAfter turns with
      | none => none
      | some tally =>
          match repeating.turn tally with
          | .stopped _ => none
          | .next later => some later

/-- The number of turns that are enough: the minimum or, if there are more of
them, the octets ahead of the origin. -/
def horizon (repeating : Repeating) (length : Nat) : Nat :=
  max repeating.bounds.minimum (length - repeating.origin.toNat)

/-- The state after the given number of turns: it is counted exactly. -/
structure Tallied (repeating : Repeating) (turns : Nat) (tally : Tally) :
    Prop where
  counted : tally.count.toNat = turns
  within : ∀ limit ∈ repeating.bounds.maximum, turns ≤ limit
  gathered : repeating.Gathered turns tally.accepted
  frontier : repeating.Frontier turns tally.frontier

section Tally

variable {repeating : Repeating} {length turns : Nat} {tally : Tally}

theorem settles_iff :
    repeating.settles tally = true ↔
      ∀ stop ∈ repeating.round tally.frontier,
        stop ∈ repeating.acceptedAt tally := by
  simp [settles, Ends.mem_def]

theorem tallied_zero :
    repeating.Tallied 0 ⟨0, .none, .single repeating.origin⟩ :=
  ⟨rfl, fun _ _ => Nat.zero_le _, gathered_zero, frontier_zero⟩

theorem horizon_lt
    (wordwise : repeating.bounds.Wordwise) (fits : length < UInt64.size) :
    repeating.horizon length < UInt64.size :=
  Nat.max_lt.mpr ⟨wordwise.minimum, by omega⟩

theorem Tallied.due_iff
    (tallied : repeating.Tallied turns tally)
    (wordwise : repeating.bounds.Wordwise) :
    repeating.Due tally ↔ repeating.bounds.minimum ≤ turns := by
  rw [Due, UInt64.le_iff_toNat_le, tallied.counted,
    UInt64.toNat_ofNat_of_lt' wordwise.minimum]

theorem Tallied.filled_iff
    (tallied : repeating.Tallied turns tally)
    (wordwise : repeating.bounds.Wordwise) :
    repeating.bounds.maximum.map UInt64.ofNat = some tally.count ↔
      repeating.bounds.maximum = some turns := by
  cases limited : repeating.bounds.maximum with
  | none => simp
  | some limit =>
      have located : (UInt64.ofNat limit).toNat = limit :=
        UInt64.toNat_ofNat_of_lt' (wordwise.maximum limit limited)
      rw [Option.map_some, Option.some.injEq, Option.some.injEq,
        ← UInt64.toNat_inj, located, tallied.counted]

theorem Tallied.gathered_acceptedAt
    (tallied : repeating.Tallied turns tally)
    (wordwise : repeating.bounds.Wordwise) :
    repeating.Gathered (turns + 1) (repeating.acceptedAt tally) := by
  rw [acceptedAt]
  by_cases due : repeating.Due tally
  · rw [if_pos due]
    exact tallied.gathered.add tallied.frontier
      ((tallied.due_iff wordwise).mp due)
  · rw [if_neg due]
    rw [tallied.due_iff wordwise, Nat.not_le] at due
    exact tallied.gathered.skip due

/-- The loop goes on only as long as the horizon has not been reached. -/
theorem Tallied.lt_horizon
    (tallied : repeating.Tallied turns tally)
    (inRange : repeating.InRange length)
    (wordwise : repeating.bounds.Wordwise)
    (unsettled : ¬ (repeating.Due tally ∧ repeating.settles tally = true)) :
    turns < repeating.horizon length := by
  by_contra notBefore
  obtain ⟨due, enough⟩ := Nat.max_le.mp (Nat.not_lt.mp notBefore)
  apply unsettled
  refine ⟨(tallied.due_iff wordwise).mpr due, settles_iff.mpr ?_⟩
  intro stop member
  have reached := (tallied.frontier.round stop).mp member
  exact (tallied.gathered_acceptedAt wordwise stop).mpr
    ⟨turns, due, Nat.lt_succ_self turns,
      inRange.reached_of_succ enough reached⟩

/-- A turn is the last one, and all ends have been gathered, or the next state
is counted exactly as well. -/
theorem Tallied.turn
    (tallied : repeating.Tallied turns tally)
    (inRange : repeating.InRange length)
    (wordwise : repeating.bounds.Wordwise) (fits : length < UInt64.size) :
    (∃ ends, repeating.turn tally = .stopped ends ∧ repeating.Exact ends) ∨
      ∃ later, repeating.turn tally = .next later ∧
        repeating.Tallied (turns + 1) later ∧
        turns < repeating.horizon length := by
  have gathered := tallied.gathered_acceptedAt wordwise
  unfold Repeating.turn
  by_cases ended : repeating.bounds.maximum.map UInt64.ofNat =
      some tally.count ∨ tally.frontier.isEmpty = true
  · left
    refine ⟨_, if_pos ended, ?_⟩
    rcases ended with filled | empty
    · exact gathered.exact_of_filled ((tallied.filled_iff wordwise).mp filled)
    · exact gathered.exact_of_isEmpty tallied.frontier tallied.within empty
  · dsimp only
    rw [if_neg ended]
    by_cases settled : repeating.Due tally ∧ repeating.settles tally = true
    · left
      refine ⟨_, if_pos settled, ?_⟩
      apply gathered.exact_of_closed tallied.within
      apply gathered.closed ((tallied.due_iff wordwise).mp settled.1)
      intro stop reached
      exact settles_iff.mp settled.2 stop
        ((tallied.frontier.round stop).mpr reached)
    · right
      have before := tallied.lt_horizon inRange wordwise settled
      have small : turns + 1 < UInt64.size :=
        Nat.lt_of_le_of_lt before (horizon_lt wordwise fits)
      have sum : AddsUp tally.count 1 := by
        apply addsUp_of_lt
        rw [tallied.counted]
        exact small
      refine ⟨_, if_neg settled, ⟨?_, ?_, gathered, ?_⟩, before⟩
      · rw [sum, tallied.counted]
        rfl
      · intro limit isLimit
        have unfilled : ¬ repeating.bounds.maximum = some turns := by
          intro filled
          exact ended (Or.inl ((tallied.filled_iff wordwise).mpr filled))
        have atMost := tallied.within limit isLimit
        have different : turns ≠ limit := by
          rintro rfl
          exact unfilled isLimit
        omega
      · exact tallied.frontier.round

/-- However many turns are made, the count is exact. -/
theorem tallied_of_tallyAfter
    (inRange : repeating.InRange length)
    (wordwise : repeating.bounds.Wordwise) (fits : length < UInt64.size)
    (after : repeating.tallyAfter turns = some tally) :
    repeating.Tallied turns tally := by
  induction turns generalizing tally with
  | zero =>
      cases after
      exact tallied_zero
  | succ turns inductionHypothesis =>
      rw [tallyAfter] at after
      cases before : repeating.tallyAfter turns with
      | none =>
          rw [before] at after
          cases after
      | some earlier =>
          rw [before] at after
          dsimp only at after
          rcases (inductionHypothesis before).turn inRange wordwise fits with
            ⟨ends, stopped, _⟩ | ⟨later, next, tallied, _⟩
          · rw [stopped] at after
            cases after
          · rw [next] at after
            cases after
            exact tallied

theorem exists_tallyAfter
    (after : repeating.tallyAfter turns = some tally) {earlier : Nat}
    (ordered : earlier ≤ turns) :
    ∃ before, repeating.tallyAfter earlier = some before := by
  induction turns, ordered using Nat.le_induction generalizing tally with
  | base => exact ⟨tally, after⟩
  | succ turns _ inductionHypothesis =>
      rw [tallyAfter] at after
      cases before : repeating.tallyAfter turns with
      | none =>
          rw [before] at after
          cases after
      | some middle =>
          exact inductionHypothesis before

/-- The last turn comes before the horizon is passed. -/
theorem exists_last_turn
    (inRange : repeating.InRange length)
    (wordwise : repeating.bounds.Wordwise) (fits : length < UInt64.size)
    (after : repeating.tallyAfter turns = some tally)
    (atMost : turns ≤ repeating.horizon length) :
    ∃ all last ends, all ≤ repeating.horizon length ∧
      repeating.tallyAfter all = some last ∧
      repeating.turn last = .stopped ends ∧ repeating.Exact ends := by
  have tallied := tallied_of_tallyAfter inRange wordwise fits after
  induction left : repeating.horizon length - turns
    generalizing turns tally with
  | zero =>
      rcases tallied.turn inRange wordwise fits with
        ⟨ends, stopped, exact⟩ | ⟨later, next, _, before⟩
      · exact ⟨turns, tally, ends, atMost, after, stopped, exact⟩
      · omega
  | succ left inductionHypothesis =>
      rcases tallied.turn inRange wordwise fits with
        ⟨ends, stopped, exact⟩ | ⟨later, next, talliedLater, before⟩
      · exact ⟨turns, tally, ends, atMost, after, stopped, exact⟩
      · have afterLater : repeating.tallyAfter (turns + 1) = some later := by
          rw [tallyAfter, after]
          dsimp only
          rw [next]
        exact inductionHypothesis afterLater before talliedLater (by omega)

end Tally

/-- Stopping early loses nothing. From the origin, a repetition finds exactly
what some allowed number of rounds reaches. A loop that counts the rounds with a
machine word finds the same: it comes to an end no later than at the horizon,
and its count is exact all the way. -/
theorem repetition_finds_reached
    {setting : Setting} {repeating : Repeating} {body : Element} {tree : Tree}
    {index : Nat}
    (inRange : repeating.InRange setting.input.size)
    (wordwise : repeating.bounds.Wordwise)
    (short : setting.input.size < halfRange) :
    ∃ ends : Ends,
      (∀ stop, stop ∈ ends ↔
        ∃ count, repeating.bounds.Allows count ∧
          repeating.Reached count stop) ∧
      level setting (fun _ start => .ok (repeating.operand start))
          ⟨tree, index, .repetition repeating.bounds body⟩ repeating.origin =
        (.ok ends : Except Fault Ends) ∧
      ∃ turns last,
        repeating.tallyAfter turns = some last ∧
        repeating.turn last = .stopped ends ∧
        turns ≤ repeating.horizon setting.input.size ∧
        ∀ earlier ≤ turns, ∃ tally,
          repeating.tallyAfter earlier = some tally ∧
          tally.count.toNat = earlier := by
  have fits : setting.input.size < UInt64.size :=
    addressable_of_short short
  obtain ⟨ends, found, exact⟩ :=
    @level_repetition_exact _ setting body tree index
  have begins : repeating.tallyAfter 0 =
      some ⟨0, .none, .single repeating.origin⟩ :=
    rfl
  obtain ⟨turns, last, others, atMost, after, stopped, exactToo⟩ :=
    exists_last_turn inRange wordwise fits begins (Nat.zero_le _)
  obtain rfl := exactToo.unique exact
  refine ⟨others, exact, found, turns, last, after, stopped, atMost, ?_⟩
  intro earlier before
  obtain ⟨tally, afterEarlier⟩ := exists_tallyAfter after before
  exact ⟨tally, afterEarlier,
    (tallied_of_tallyAfter inRange wordwise fits afterEarlier).counted⟩

/-- At least 2⁶⁴ - 1 rounds of an operand that leads from 0 to 1, from there to
1 again or to 2, and no further. -/
def restingSteps : Repeating :=
  ⟨fun start =>
      if start = 0 then .single 1
      else if start = 1 then (Ends.single 1).union (.single 2)
      else .none,
    .atLeast (UInt64.size - 1), 0⟩

theorem inRange_restingSteps : restingSteps.InRange 2 := by
  refine ⟨by decide, ?_⟩
  intro start stop inside member
  simp only [restingSteps] at member
  split at member
  · next first =>
      rw [first, Ends.mem_single.mp member]
      decide
  · split at member
    · next second =>
        rw [second]
        rcases Ends.mem_union.mp member with stays | moves
        · rw [Ends.mem_single.mp stays]
          decide
        · rw [Ends.mem_single.mp moves]
          decide
    · exact absurd member (Ends.not_mem_none stop)

theorem reached_restingSteps {count : Nat} (several : 2 ≤ count)
    {stop : Offset} :
    restingSteps.Reached count stop ↔ stop = 1 ∨ stop = 2 := by
  induction count, several using Nat.le_induction generalizing stop with
  | base => simp [Reached, restingSteps]
  | succ count _ inductionHypothesis =>
      rw [Reached]
      simp only [inductionHypothesis]
      simp [restingSteps]

/-- Both 1 and 2 are found, since any number of rounds may stay at 1. -/
theorem repetition_finds_reached_restingSteps :
    ∃ ends : Ends,
      (∀ stop, stop ∈ ends ↔ stop = 1 ∨ stop = 2) ∧
      level ⟨#[0x61, 0x61], none, false⟩
          (fun _ start => .ok (restingSteps.operand start))
          ⟨.tested, 0,
            .repetition restingSteps.bounds (.terminal (.octet 0x61))⟩ 0 =
        (.ok ends : Except Fault Ends) := by
  have wordwise : restingSteps.bounds.Wordwise :=
    ⟨by decide, fun _ isLimit => nomatch isLimit⟩
  obtain ⟨ends, members, found, _⟩ :=
    @repetition_finds_reached ⟨#[0x61, 0x61], none, false⟩ restingSteps
      (.terminal (.octet 0x61)) .tested 0 inRange_restingSteps wordwise
      (by decide)
  refine ⟨ends, ?_, found⟩
  intro stop
  rw [members stop]
  constructor
  · rintro ⟨count, allowed, reached⟩
    have several : 2 ≤ count :=
      Nat.le_trans (by decide) allowed.1
    exact (reached_restingSteps several).mp reached
  · intro isEnd
    refine ⟨UInt64.size - 1, ⟨Nat.le_refl _, fun _ isLimit => nomatch isLimit⟩,
      ?_⟩
    exact (reached_restingSteps (by decide)).mpr isEnd

end Repeating

end Exhaustive

end AbnfMatching
