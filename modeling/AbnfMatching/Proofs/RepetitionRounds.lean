import AbnfMatching.Matching.Exhaustive
import AbnfMatching.Proofs.EndSets

/-!
# Rounds of an exhaustive repetition

From the origin of a repetition, each number of rounds reaches a set of offsets.
These sets neither grow nor shrink steadily: an operand that matches the empty
string at some offsets only holds the place there and leaves it elsewhere. Still
a repetition may stop as soon as one round past the minimum reaches nothing that
has not been accepted, since from then on no round ever will.
-/

namespace AbnfMatching

namespace Exhaustive

/-- A repetition that begins at the origin, and the ends of its operand from any
offset. -/
structure Repeating where
  operand : Offset → Ends
  bounds : Bounds
  origin : Offset

namespace Repeating

/-- Exactly the given number of rounds may lead to the stop. -/
def Reached (repeating : Repeating) : Nat → Offset → Prop
  | 0, stop => stop = repeating.origin
  | count + 1, stop =>
      ∃ start, repeating.Reached count start ∧ stop ∈ repeating.operand start

/-- The ends are those that some allowed number of rounds reaches. -/
def Exact (repeating : Repeating) (ends : Ends) : Prop :=
  ∀ stop, stop ∈ ends ↔
    ∃ count, repeating.bounds.Allows count ∧ repeating.Reached count stop

/-- The repetition begins in an input of the length, and its operand ends
there, no earlier than it begins. -/
structure InRange (repeating : Repeating) (length : Nat) : Prop where
  origin : repeating.origin.toNat ≤ length
  operand : ∀ start stop, start.toNat ≤ length →
    stop ∈ repeating.operand start → start ≤ stop ∧ stop.toNat ≤ length

section Reached

variable {repeating : Repeating} {length count later : Nat} {stop : Offset}

theorem InRange.inside
    (inRange : repeating.InRange length)
    (reached : repeating.Reached count stop) :
    stop.toNat ≤ length := by
  induction count generalizing stop with
  | zero =>
      rw [show stop = repeating.origin from reached]
      exact inRange.origin
  | succ count inductionHypothesis =>
      obtain ⟨start, before, member⟩ := reached
      exact (inRange.operand start stop (inductionHypothesis before)
        member).2

/-- Rounds that do not move on can be left out, so that every offset is reached
by one round less unless each round has moved on. -/
theorem InRange.moved_or_reached
    (inRange : repeating.InRange length)
    (reached : repeating.Reached (count + 1) stop) :
    repeating.origin.toNat + (count + 1) ≤ stop.toNat ∨
      repeating.Reached count stop := by
  induction count generalizing stop with
  | zero =>
      obtain ⟨start, rfl, member⟩ := reached
      have ahead := (inRange.operand _ stop inRange.origin member).1
      by_cases same : stop = repeating.origin
      · exact Or.inr same
      · have moved := UInt64.lt_iff_toNat_lt.mp
          (UInt64.lt_of_le_of_ne ahead (Ne.symm same))
        exact Or.inl moved
  | succ count inductionHypothesis =>
      obtain ⟨start, before, member⟩ := reached
      have ahead := (inRange.operand start stop (inRange.inside before)
        member).1
      by_cases same : stop = start
      · exact Or.inr (same ▸ before)
      · have moved := UInt64.lt_iff_toNat_lt.mp
          (UInt64.lt_of_le_of_ne ahead (Ne.symm same))
        rcases inductionHypothesis before with far | reachedEarlier
        · left
          omega
        · exact Or.inr ⟨start, reachedEarlier, member⟩

/-- After as many rounds as there are octets ahead, another one reaches nothing
new. -/
theorem InRange.reached_of_succ
    (inRange : repeating.InRange length)
    (enough : length - repeating.origin.toNat ≤ count)
    (reached : repeating.Reached (count + 1) stop) :
    repeating.Reached count stop := by
  rcases inRange.moved_or_reached reached with far | reachedEarlier
  · have inside := inRange.inside reached
    have begins := inRange.origin
    omega
  · exact reachedEarlier

/-- Where no round leads, no further one does. -/
theorem not_reached_of_le
    (none : ∀ stop, ¬ repeating.Reached count stop) (ordered : count ≤ later) :
    ¬ repeating.Reached later stop := by
  induction later, ordered using Nat.le_induction generalizing stop with
  | base => exact none stop
  | succ later _ inductionHypothesis =>
      rintro ⟨start, before, _⟩
      exact inductionHypothesis before

end Reached

/-! ## What has been gathered -/

/-- The ends are those that exactly the given number of rounds reaches. -/
def Frontier (repeating : Repeating) (count : Nat) (ends : Ends) : Prop :=
  ∀ stop, stop ∈ ends ↔ repeating.Reached count stop

/-- The ends are those that fewer rounds than given reach, but no fewer than
the minimum. -/
def Gathered (repeating : Repeating) (count : Nat) (ends : Ends) : Prop :=
  ∀ stop, stop ∈ ends ↔
    ∃ earlier, repeating.bounds.minimum ≤ earlier ∧ earlier < count ∧
      repeating.Reached earlier stop

/-- The ends from anywhere in the frontier. -/
def round (repeating : Repeating) (frontier : Ends) : Ends :=
  frontier.offsets.foldr
    (fun start others => (repeating.operand start).union others) .none

section Gathered

variable {repeating : Repeating} {count : Nat} {accepted frontier ends : Ends}

theorem mem_round {stop : Offset} :
    stop ∈ repeating.round frontier ↔
      ∃ start ∈ frontier, stop ∈ repeating.operand start := by
  rw [round]
  simp only [Ends.mem_def]
  induction frontier.offsets with
  | nil => simp [Ends.none]
  | cons head tail inductionHypothesis =>
      rw [List.foldr_cons, ← Ends.mem_def, Ends.mem_union, Ends.mem_def,
        Ends.mem_def, inductionHypothesis]
      simp

theorem frontier_zero : repeating.Frontier 0 (.single repeating.origin) :=
  fun _ => Ends.mem_single

theorem Frontier.round (isFrontier : repeating.Frontier count frontier) :
    repeating.Frontier (count + 1) (repeating.round frontier) := by
  intro stop
  rw [mem_round]
  constructor
  · rintro ⟨start, member, ends⟩
    exact ⟨start, (isFrontier start).mp member, ends⟩
  · rintro ⟨start, reached, ends⟩
    exact ⟨start, (isFrontier start).mpr reached, ends⟩

theorem Frontier.not_reached
    (isFrontier : repeating.Frontier count frontier)
    (empty : frontier.isEmpty = true) (stop : Offset) :
    ¬ repeating.Reached count stop :=
  fun reached => Ends.not_mem_of_isEmpty empty ((isFrontier stop).mpr reached)

theorem gathered_zero : repeating.Gathered 0 .none := by
  intro stop
  simp

theorem Gathered.add
    (gathered : repeating.Gathered count accepted)
    (isFrontier : repeating.Frontier count frontier)
    (due : repeating.bounds.minimum ≤ count) :
    repeating.Gathered (count + 1) (accepted.union frontier) := by
  intro stop
  rw [Ends.mem_union, gathered stop, isFrontier stop]
  constructor
  · rintro (⟨earlier, least, before, reached⟩ | reached)
    · exact ⟨earlier, least, Nat.lt_succ_of_lt before, reached⟩
    · exact ⟨count, due, Nat.lt_succ_self count, reached⟩
  · rintro ⟨earlier, least, before, reached⟩
    rcases Nat.lt_succ_iff_lt_or_eq.mp before with strictly | rfl
    · exact Or.inl ⟨earlier, least, strictly, reached⟩
    · exact Or.inr reached

theorem Gathered.skip
    (gathered : repeating.Gathered count accepted)
    (early : count < repeating.bounds.minimum) :
    repeating.Gathered (count + 1) accepted := by
  intro stop
  rw [gathered stop]
  constructor
  · rintro ⟨earlier, least, before, reached⟩
    omega
  · rintro ⟨earlier, least, before, reached⟩
    omega

/-- If another round reaches nothing new, then no number of rounds does. -/
theorem Gathered.closed
    (gathered : repeating.Gathered (count + 1) ends)
    (due : repeating.bounds.minimum ≤ count)
    (settled : ∀ stop, repeating.Reached (count + 1) stop → stop ∈ ends)
    (later : Nat) (stop : Offset)
    (least : repeating.bounds.minimum ≤ later)
    (reached : repeating.Reached later stop) :
    stop ∈ ends := by
  induction later, least using Nat.le_induction generalizing stop with
  | base =>
      exact (gathered stop).mpr
        ⟨_, Nat.le_refl _, Nat.lt_succ_of_le due, reached⟩
  | succ later _ inductionHypothesis =>
      obtain ⟨start, before, member⟩ := reached
      -- The start may be reached by fewer rounds, all of them counted.
      obtain ⟨earlier, least, atMost, reachedStart⟩ :=
        (gathered start).mp (inductionHypothesis start before)
      rcases Nat.lt_succ_iff_lt_or_eq.mp atMost with strictly | rfl
      · exact (gathered stop).mpr
          ⟨earlier + 1, Nat.le_succ_of_le least, Nat.succ_lt_succ strictly,
            start, reachedStart, member⟩
      · exact settled stop ⟨start, reachedStart, member⟩

theorem Gathered.exact_of_closed
    (gathered : repeating.Gathered (count + 1) ends)
    (within : ∀ limit ∈ repeating.bounds.maximum, count ≤ limit)
    (closed : ∀ later stop, repeating.bounds.minimum ≤ later →
      repeating.Reached later stop → stop ∈ ends) :
    repeating.Exact ends := by
  intro stop
  constructor
  · intro member
    obtain ⟨earlier, least, before, reached⟩ := (gathered stop).mp member
    refine ⟨earlier, ⟨least, ?_⟩, reached⟩
    intro limit isLimit
    exact Nat.le_trans (Nat.le_of_lt_succ before) (within limit isLimit)
  · rintro ⟨later, allowed, reached⟩
    exact closed later stop allowed.1 reached

theorem Gathered.exact_of_filled
    (gathered : repeating.Gathered (count + 1) ends)
    (filled : repeating.bounds.maximum = some count) :
    repeating.Exact ends := by
  intro stop
  rw [gathered stop]
  have allows : ∀ earlier, repeating.bounds.Allows earlier ↔
      repeating.bounds.minimum ≤ earlier ∧ earlier < count + 1 := by
    intro earlier
    rw [Bounds.Allows, filled, Nat.lt_succ_iff]
    simp
  simp only [allows, and_assoc]

/-- Without anything on the frontier, all rounds have been made. -/
theorem Gathered.exact_of_isEmpty
    (gathered : repeating.Gathered (count + 1) ends)
    (isFrontier : repeating.Frontier count frontier)
    (within : ∀ limit ∈ repeating.bounds.maximum, count ≤ limit)
    (empty : frontier.isEmpty = true) :
    repeating.Exact ends := by
  apply gathered.exact_of_closed within
  intro later stop least reached
  by_cases before : later < count + 1
  · exact (gathered stop).mpr ⟨later, least, before, reached⟩
  · exact absurd reached
      (not_reached_of_le (isFrontier.not_reached empty) (by omega))

/-- There is only one set of exactly these ends. -/
theorem Exact.unique
    {others : Ends} (first : repeating.Exact ends)
    (second : repeating.Exact others) :
    ends = others :=
  Ends.eq_of_mem_iff fun stop => (first stop).trans (second stop).symm

end Gathered

/-! ## The rounds of a match -/

section Level

variable {repeating : Repeating} {count rounds : Nat}
  {accepted frontier : Ends}

/-- The operand as it answers in a match. -/
def item (repeating : Repeating) (start : Offset) : Except Fault Ends :=
  .ok (repeating.operand start)

theorem fromAny_item (frontier : Ends) :
    fromAny repeating.item frontier.offsets =
      .ok (repeating.round frontier) := by
  rw [round]
  induction frontier.offsets with
  | nil => rfl
  | cons head tail inductionHypothesis =>
      rw [fromAny, inductionHypothesis]
      rfl

theorem advance_reaches (isFrontier : repeating.Frontier count frontier) :
    ∃ reached, advance repeating.item rounds frontier = .ok reached ∧
      repeating.Frontier (count + rounds) reached := by
  induction rounds generalizing count frontier with
  | zero =>
      exact ⟨frontier, rfl, isFrontier⟩
  | succ rounds inductionHypothesis =>
      rw [advance]
      by_cases empty : frontier.isEmpty = true
      · rw [if_pos empty]
        refine ⟨.none, rfl, ?_⟩
        intro stop
        have unreached : ¬ repeating.Reached (count + (rounds + 1)) stop :=
          not_reached_of_le (isFrontier.not_reached empty) (by omega)
        simp [unreached]
      · rw [if_neg empty, fromAny_item]
        have advanced := inductionHypothesis isFrontier.round
        rw [Nat.add_assoc, Nat.add_comm 1] at advanced
        exact advanced

/-- The accepted ends are extended until all rounds that are allowed have been
made or one of them reaches nothing new. Either way nothing is missing then. -/
theorem extend_exact
    {left : Option Nat}
    (gathered : repeating.Gathered (count + 1) accepted)
    (isFrontier : repeating.Frontier count frontier)
    (due : repeating.bounds.minimum ≤ count)
    (within : ∀ limit ∈ repeating.bounds.maximum, count ≤ limit)
    (roundsLeft : left = repeating.bounds.remaining count) :
    ∃ ends, extend repeating.item left accepted frontier = .ok ends ∧
      repeating.Exact ends := by
  induction left, accepted, frontier using extend.induct generalizing count with
  | case1 accepted frontier =>
      have filled := Bounds.maximum_of_remaining within roundsLeft.symm
      exact ⟨accepted, extend_filled, gathered.exact_of_filled filled⟩
  | case2 left accepted frontier unfilled inductionHypothesis =>
      rw [extend_round unfilled, fromAny_item]
      change ∃ ends,
        (if accepted.union (repeating.round frontier) = accepted then
          .ok accepted
        else
          extend repeating.item (left.map (· - 1))
            (accepted.union (repeating.round frontier))
            (repeating.round frontier)) = .ok ends ∧ _
      by_cases settled :
        accepted.union (repeating.round frontier) = accepted
      · rw [if_pos settled]
        refine ⟨accepted, rfl, gathered.exact_of_closed within ?_⟩
        apply gathered.closed due
        intro stop reached
        rw [← settled, Ends.mem_union]
        exact Or.inr ((isFrontier.round stop).mpr reached)
      · rw [if_neg settled]
        rw [roundsLeft] at unfilled
        apply inductionHypothesis _ settled
          (gathered.add isFrontier.round (Nat.le_succ_of_le due))
          isFrontier.round (Nat.le_succ_of_le due)
          (Bounds.lt_of_remaining within unfilled)
        rw [roundsLeft, Bounds.remaining_succ]

/-- A repetition finds what some allowed number of rounds reaches. -/
theorem level_repetition_exact
    {setting : Setting} {body : Element} {tree : Tree} {index : Nat} :
    ∃ ends,
      level setting (fun _ => repeating.item)
          ⟨tree, index, .repetition repeating.bounds body⟩ repeating.origin =
        .ok ends ∧
      repeating.Exact ends := by
  obtain ⟨reached, advanced, isFrontier⟩ :=
    @advance_reaches _ 0 repeating.bounds.minimum _ frontier_zero
  rw [Nat.zero_add] at isFrontier
  have gathered :
      repeating.Gathered (repeating.bounds.minimum + 1) reached := by
    intro stop
    rw [isFrontier stop]
    constructor
    · intro reachedStop
      exact ⟨_, Nat.le_refl _, Nat.lt_succ_self _, reachedStop⟩
    · rintro ⟨earlier, least, before, reachedStop⟩
      rwa [Nat.le_antisymm least (Nat.le_of_lt_succ before)]
  obtain ⟨ends, extended, exact⟩ :=
    extend_exact gathered isFrontier (Nat.le_refl _)
      repeating.bounds.minimum_le rfl
  refine ⟨ends, ?_, exact⟩
  rw [level]
  change (advance repeating.item repeating.bounds.minimum
    (.single repeating.origin) >>= fun reached =>
      extend repeating.item
        (repeating.bounds.remaining repeating.bounds.minimum)
        reached reached) = _
  rw [advanced]
  exact extended

end Level

end Repeating

end Exhaustive

end AbnfMatching
