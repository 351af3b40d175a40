import AbnfMatching.Proofs.GreedyAmongAll
import AbnfMatching.Proofs.GreedyRange

/-!
# Rounds of a greedy repetition

The rounds of a repetition lead from offset to offset, each one from where the
one before it ended. They go on until the repetition comes to rest: as many
rounds as are allowed have been made, the operand fails, the end of the input is
reached, or a round consumes nothing. Where the repetition comes to rest decides
what it finds, and every round but the last one takes it further, so that the
length of the input bounds the number of rounds whatever the bounds of the
repetition are.
-/

namespace AbnfMatching

namespace Greedy

/-- A repetition that begins at the origin in an input of some length, and what
its operand comes to from any offset. -/
structure Repeating where
  operand : Offset → Except Fault (Option Offset)
  bounds : Bounds
  length : Nat
  origin : Offset

namespace Repeating

/-- Where the given number of rounds leads, if so many can be made. -/
def after (repeating : Repeating) : Nat → Option Offset
  | 0 => some repeating.origin
  | count + 1 =>
      match repeating.after count with
      | none => none
      | some start =>
          match repeating.operand start with
          | .ok found => found
          | .error _ => none

/-- The last of the rounds has ended where it began. -/
def Idles (repeating : Repeating) (count : Nat) (start : Offset) : Prop :=
  0 < count ∧ repeating.after (count - 1) = some start

instance (repeating : Repeating) (count : Nat) (start : Offset) :
    Decidable (repeating.Idles count start) :=
  inferInstanceAs (Decidable (_ ∧ _))

/-- Why no round is made after those that have led to `start`. -/
inductive Over (repeating : Repeating) (count : Nat) (start : Offset) : Prop
  | filled :
      repeating.bounds.maximum = some count →
      Over repeating count start
  | failed :
      repeating.operand start = .ok none →
      Over repeating count start
  | atEnd :
      0 < count →
      start.toNat = repeating.length →
      Over repeating count start
  | idle :
      repeating.Idles count start →
      Over repeating count start

/-- The least number of rounds after which no other is made, and where they
lead. -/
structure Rests (repeating : Repeating) (count : Nat) (start : Offset) :
    Prop where
  reached : repeating.after count = some start
  isOver : repeating.Over count start
  first : ∀ earlier < count, ∀ begin, repeating.after earlier = some begin →
    ¬ repeating.Over earlier begin

/-- What is found where the repetition comes to rest. An idle round before the
end of the input makes up for the rounds that are missing to the minimum. -/
def found (repeating : Repeating) (count : Nat) (start : Offset) :
    Option Offset :=
  if repeating.bounds.minimum ≤ count ∨
      repeating.Idles count start ∧ start.toNat < repeating.length
    then some start
    else none

section Rounds

variable {repeating : Repeating} {count count' : Nat}
  {start start' stop : Offset}

theorem exists_before
    (reached : repeating.after (count + 1) = some stop) :
    ∃ start, repeating.after count = some start ∧
      repeating.operand start = .ok (some stop) := by
  rw [after] at reached
  cases before : repeating.after count with
  | none =>
      rw [before] at reached
      cases reached
  | some start =>
      rw [before] at reached
      cases ended : repeating.operand start with
      | error cause =>
          simp [ended] at reached
      | ok found =>
          simp only [ended] at reached
          exact ⟨start, rfl, reached ▸ ended⟩

theorem after_succ
    {found : Option Offset}
    (reached : repeating.after count = some start)
    (ended : repeating.operand start = .ok found) :
    repeating.after (count + 1) = found := by
  rw [after, reached]
  simp only [ended]

theorem exists_after
    (reached : repeating.after count = some stop) (earlier : count' ≤ count) :
    ∃ start, repeating.after count' = some start := by
  induction count generalizing stop with
  | zero =>
      exact ⟨stop, Nat.le_zero.mp earlier ▸ reached⟩
  | succ count inductionHypothesis =>
      rcases Nat.le_succ_iff.mp earlier with before | rfl
      · obtain ⟨middle, reachedMiddle, _⟩ := exists_before reached
        exact inductionHypothesis reachedMiddle before
      · exact ⟨stop, reached⟩

theorem Rests.not_lt
    (first : repeating.Rests count start)
    (second : repeating.Rests count' start') :
    ¬ count < count' :=
  fun before => second.first count before start first.reached first.isOver

/-- A repetition comes to rest once. -/
theorem Rests.unique
    (first : repeating.Rests count start)
    (second : repeating.Rests count' start') :
    count = count' ∧ start = start' := by
  have same : count = count' :=
    Nat.le_antisymm (Nat.not_lt.mp (second.not_lt first))
      (Nat.not_lt.mp (first.not_lt second))
  subst same
  exact ⟨rfl, Option.some.inj (first.reached.symm.trans second.reached)⟩

/-- The repetition is under way: the rounds have led to `start`, and up to here
nothing but their number or the operand can have stopped it. -/
structure Underway
    (repeating : Repeating) (count : Nat) (start : Offset) : Prop where
  reached : repeating.after count = some start
  notYet : ∀ earlier < count, ∀ begin, repeating.after earlier = some begin →
    ¬ repeating.Over earlier begin
  beforeEnd : 0 < count → start.toNat ≠ repeating.length
  moving : ¬ repeating.Idles count start

theorem underway_zero : repeating.Underway 0 repeating.origin := by
  refine ⟨rfl, ?_, ?_, ?_⟩
  · intro earlier before
    exact absurd before (Nat.not_lt_zero earlier)
  · intro positive
    exact absurd positive (Nat.lt_irrefl 0)
  · rintro ⟨positive, _⟩
    exact Nat.lt_irrefl 0 positive

theorem Underway.rests
    (underway : repeating.Underway count start)
    (isOver : repeating.Over count start) :
    repeating.Rests count start :=
  ⟨underway.reached, isOver, underway.notYet⟩

/-- As long as rounds are allowed and the operand does not fail, the repetition
goes on. -/
theorem Underway.not_over
    (underway : repeating.Underway count start)
    (allowed : repeating.bounds.maximum ≠ some count)
    (goesOn : repeating.operand start ≠ .ok none) :
    ¬ repeating.Over count start := by
  intro isOver
  cases isOver with
  | filled isFilled => exact allowed isFilled
  | failed fails => exact goesOn fails
  | atEnd positive isEnd => exact underway.beforeEnd positive isEnd
  | idle idles => exact underway.moving idles

theorem notYet_succ
    (reached : repeating.after count = some start)
    (notYet : ∀ earlier < count, ∀ begin,
      repeating.after earlier = some begin → ¬ repeating.Over earlier begin)
    (notOver : ¬ repeating.Over count start) :
    ∀ earlier < count + 1, ∀ begin, repeating.after earlier = some begin →
      ¬ repeating.Over earlier begin := by
  intro earlier before begin reachedEarlier
  rcases Nat.lt_succ_iff_lt_or_eq.mp before with isEarlier | rfl
  · exact notYet earlier isEarlier begin reachedEarlier
  · obtain rfl := Option.some.inj (reached.symm.trans reachedEarlier)
    exact notOver

/-- A repetition that goes on after a round was under way before it. -/
theorem underway_of_succ
    (reached : repeating.after count = some start)
    (notYet : ∀ earlier < count + 1, ∀ begin,
      repeating.after earlier = some begin →
      ¬ repeating.Over earlier begin) :
    repeating.Underway count start := by
  have notOver := notYet count (Nat.lt_succ_self count) start reached
  refine ⟨reached, ?_, ?_, ?_⟩
  · intro earlier before
    exact notYet earlier (Nat.lt_succ_of_lt before)
  · intro positive isEnd
    exact notOver (.atEnd positive isEnd)
  · intro idles
    exact notOver (.idle idles)

/-- If the operand comes to no end, then the repetition comes to no rest. -/
theorem Underway.not_rests
    {cause : Fault}
    (underway : repeating.Underway count start)
    (allowed : repeating.bounds.maximum ≠ some count)
    (fails : repeating.operand start = .error cause) :
    ¬ repeating.Rests count' start' := by
  intro rests
  have notOver : ¬ repeating.Over count start :=
    underway.not_over allowed (by simp [fails])
  have noRest := notYet_succ underway.reached underway.notYet notOver
  by_cases beyond : count < count'
  · obtain ⟨begin, reached⟩ := exists_after rests.reached beyond
    obtain ⟨before, reachedBefore, ended⟩ := exists_before reached
    obtain rfl := Option.some.inj (underway.reached.symm.trans reachedBefore)
    cases fails.symm.trans ended
  · exact noRest count' (by omega) start' rests.reached rests.isOver

end Rounds

/-! ## The length of the input -/

/-- The repetition begins in the input, and its operand ends there, no earlier
than it begins. -/
structure InRange (repeating : Repeating) : Prop where
  origin : repeating.origin.toNat ≤ repeating.length
  operand : ∀ start stop, start.toNat ≤ repeating.length →
    repeating.operand start = .ok (some stop) →
    start ≤ stop ∧ stop.toNat ≤ repeating.length

section InRange

variable {repeating : Repeating} {count : Nat} {start : Offset}

theorem InRange.inside
    (inRange : repeating.InRange)
    (reached : repeating.after count = some start) :
    start.toNat ≤ repeating.length := by
  induction count generalizing start with
  | zero =>
      obtain rfl := Option.some.inj reached
      exact inRange.origin
  | succ count inductionHypothesis =>
      obtain ⟨before, reachedBefore, ended⟩ := exists_before reached
      exact (inRange.operand before start (inductionHypothesis reachedBefore)
        ended).2

/-- While the repetition is under way, each round consumes an octet. -/
theorem Underway.advanced
    (underway : repeating.Underway count start)
    (inRange : repeating.InRange) :
    repeating.origin.toNat + count ≤ start.toNat := by
  induction count generalizing start with
  | zero =>
      obtain rfl := Option.some.inj underway.reached
      exact Nat.le_refl _
  | succ count inductionHypothesis =>
      obtain ⟨before, reachedBefore, ended⟩ := exists_before underway.reached
      have advancedBefore :=
        inductionHypothesis (underway_of_succ reachedBefore underway.notYet)
      have ordered := UInt64.le_iff_toNat_le.mp
        (inRange.operand before start (inRange.inside reachedBefore) ended).1
      have further : before.toNat ≠ start.toNat := by
        intro same
        apply underway.moving
        exact ⟨Nat.succ_pos count, UInt64.toNat.inj same ▸ reachedBefore⟩
      omega

/-- A repetition comes to rest after no more rounds than there are octets, and
one more. -/
theorem Rests.count_le
    (rests : repeating.Rests count start) (inRange : repeating.InRange) :
    count ≤ repeating.length - repeating.origin.toNat + 1 := by
  cases count with
  | zero =>
      exact Nat.zero_le _
  | succ count =>
      obtain ⟨before, reachedBefore, _⟩ := exists_before rests.reached
      have advanced :=
        (underway_of_succ reachedBefore rests.first).advanced inRange
      have inside := inRange.inside reachedBefore
      omega

end InRange

/-! ## The loop -/

section Loop

variable {repeating : Repeating} {setting : Setting} {body : Element}
  {acceptable : Element × Offset → Option Offset → Prop}
  {count rounds : Nat} {start stop : Offset} {result : Option Offset}

theorem Underway.found_eq (underway : repeating.Underway count start) :
    repeating.found count start =
      settle (repeating.bounds.minimum - count) start := by
  have moving := underway.moving
  simp [found, settle, moving, Nat.sub_eq_zero_iff_le]

/-- What the repetition finds is determined by where it rests. -/
theorem Rests.found_iff (rests : repeating.Rests count start) :
    (∃ final stop, repeating.Rests final stop ∧
      result = repeating.found final stop) ↔
      result = repeating.found count start := by
  constructor
  · rintro ⟨final, stop, other, same⟩
    obtain ⟨rfl, rfl⟩ := rests.unique other
    exact same
  · intro same
    exact ⟨count, start, rests, same⟩

/-- At the end of the input no rounds are made up for. -/
theorem found_atEnd (isEnd : start.toNat = repeating.length) :
    repeating.found count start =
      settle (repeating.bounds.minimum - count) start := by
  simp [found, settle, isEnd, Nat.sub_eq_zero_iff_le]

theorem found_idle
    (idles : repeating.Idles count start)
    (beforeEnd : start.toNat < repeating.length) :
    repeating.found count start = some start :=
  if_pos (Or.inr ⟨idles, beforeEnd⟩)

/-- The rounds that are left run out exactly when as many have been made as are
allowed: without an upper limit, a repetition under way has one left. -/
theorem Underway.filled_iff
    (underway : repeating.Underway count start)
    (inRange : repeating.InRange)
    (length : setting.input.size = repeating.length)
    (budget : count + rounds = repeating.bounds.rounds setting) :
    repeating.bounds.maximum = some count ↔ rounds = 0 := by
  have advanced := underway.advanced inRange
  have inside := inRange.inside underway.reached
  cases maximum : repeating.bounds.maximum with
  | none =>
      simp only [Bounds.rounds, maximum, Option.getD_none] at budget
      simp only [reduceCtorEq, false_iff]
      omega
  | some limit =>
      simp only [Bounds.rounds, maximum, Option.getD_some] at budget
      simp only [Option.some.injEq]
      omega

/-- The loop finds a result if and only if the repetition comes to rest, and
then it is the one that goes with it. -/
theorem yields_again_iff
    (inRange : repeating.InRange)
    (length : setting.input.size = repeating.length)
    (operand : ∀ start found, acceptable (body, start) found ↔
      repeating.operand start = .ok found)
    (underway : repeating.Underway count start)
    (budget : count + rounds = repeating.bounds.rounds setting) :
    (again setting (askMatch body) rounds
      (repeating.bounds.minimum - count) start).Yields acceptable result ↔
    ∃ final stop, repeating.Rests final stop ∧
      result = repeating.found final stop := by
  induction rounds generalizing count start with
  | zero =>
      have filled := (underway.filled_iff inRange length budget).mpr rfl
      have rests := underway.rests (.filled filled)
      rw [again, Inquiry.yields_pure_iff, rests.found_iff, underway.found_eq]
  | succ rounds inductionHypothesis =>
      -- A round is left and the repetition is under way, so that only the
      -- answer of the operand can bring it to rest here.
      have allowed : repeating.bounds.maximum ≠ some count := by
        simp [underway.filled_iff inRange length budget]
      rw [again, Inquiry.yields_bind_iff]
      simp only [askMatch, Inquiry.yields_question_iff, operand]
      cases ended : repeating.operand start with
      | error cause =>
          have noRest : ∀ final stop, ¬ repeating.Rests final stop :=
            fun _ _ => underway.not_rests allowed ended
          simp [noRest]
      | ok found =>
          simp only [Except.ok.injEq, exists_eq_left']
          cases found with
          | none =>
              have rests := underway.rests (.failed ended)
              rw [Inquiry.yields_pure_iff, rests.found_iff,
                underway.found_eq]
          | some stop =>
              have reached := after_succ underway.reached ended
              have notYet := notYet_succ underway.reached underway.notYet
                (underway.not_over allowed (by simp [ended]))
              have inside := inRange.inside reached
              dsimp only
              rw [Nat.sub_sub]
              split
              · next atEnd =>
                  have isEnd : stop.toNat = repeating.length := by
                    omega
                  have rests : repeating.Rests (count + 1) stop :=
                    ⟨reached, .atEnd (Nat.succ_pos count) isEnd, notYet⟩
                  rw [Inquiry.yields_pure_iff, rests.found_iff,
                    found_atEnd isEnd]
              · next short =>
                  split
                  · next same =>
                      have idles : repeating.Idles (count + 1) stop :=
                        ⟨Nat.succ_pos count, same ▸ underway.reached⟩
                      have rests : repeating.Rests (count + 1) stop :=
                        ⟨reached, .idle idles, notYet⟩
                      rw [Inquiry.yields_pure_iff, rests.found_iff,
                        found_idle idles (by omega)]
                  · next moves =>
                      have onward : repeating.Underway (count + 1) stop := by
                        refine ⟨reached, notYet, by omega, ?_⟩
                        rintro ⟨_, before⟩
                        exact moves (Option.some.inj
                          (before.symm.trans underway.reached))
                      exact inductionHypothesis onward (by omega)

end Loop

end Repeating

end Greedy

/-! ## Entry points -/

namespace Conformance

section Repetition

variable {options : Options} {grammar : Option Grammar} {bounds : Bounds}
  {body : Element} {input : Octets} {offset start : Offset} {place : Place}

/-- The repetition of an element at an offset, where each round is a match of
the element on its own. -/
def repeating
    (options : Options) (grammar : Option Grammar) (bounds : Bounds)
    (body : Element) (input : Octets) (offset : Offset) :
    Greedy.Repeating where
  operand start :=
    (matchElement options grammar body input start).outcome.map fun consumed =>
      consumed.map (start + ·)
  bounds := bounds
  length := input.length
  origin := offset

theorem operand_eq_greedyEnd (greedy : options.strategy = .greedy) :
    (repeating options grammar bounds body input offset).operand start =
      (greedyEnd options grammar body input start).outcome := by
  have there : ∀ found : Option Offset,
      (found.map (· - start)).map (start + ·) = found := by
    intro found
    cases found with
    | none => rfl
    | some stop =>
        simp only [Option.map_some, Option.some.injEq]
        rw [UInt64.add_comm, UInt64.sub_add_cancel]
  unfold repeating
  dsimp only
  rw [outcome_matchElement_greedy greedy]
  cases (greedyEnd options grammar body input start).outcome with
  | error cause => rfl
  | ok found => exact congrArg Except.ok (there found)

theorem settles_iff_operand
    (greedy : options.strategy = .greedy) {found : Option Offset} :
    Greedy.Settles (setting options grammar input) options.limit
        (body, start) found ↔
      (repeating options grammar bounds body input offset).operand start =
        .ok found := by
  rw [operand_eq_greedyEnd greedy]
  exact ⟨greedyEnd_of_settles, settles_of_greedyEnd⟩

theorem inRange_repeating
    (fits : input.length < UInt64.size) (greedy : options.strategy = .greedy)
    (inside : offset.toNat ≤ input.length) :
    (repeating options grammar bounds body input offset).InRange := by
  constructor
  · exact inside
  · intro start stop startInside ended
    have settles := (settles_iff_operand greedy).mpr ended
    have spans := settles.spans (addressable_setting options grammar fits)
      (inside_setting options grammar startInside)
    have stopInside := spans.inside
    rw [size_setting] at stopInside
    exact ⟨spans.ordered, stopInside⟩

/-- One level above its operand, a repetition is the loop of its rounds. -/
theorem settles_repetition_iff
    (fits : input.length < UInt64.size) (greedy : options.strategy = .greedy)
    (inside : offset.toNat ≤ input.length) {found : Option Offset} :
    Greedy.Settles (setting options grammar input) (options.limit + 1)
        (.repetition bounds body, offset) found ↔
      ∃ count start,
        (repeating options grammar bounds body input offset).Rests count
          start ∧
        found =
          (repeating options grammar bounds body input offset).found count
            start :=
  Greedy.Repeating.yields_again_iff (inRange_repeating fits greedy inside)
    size_setting (fun _ _ => settles_iff_operand greedy)
    Greedy.Repeating.underway_zero (Nat.zero_add _)

/-- What a greedy match reports is what is settled, with as many levels as its
limit allows. -/
theorem matchElement_greedy_eq_ok_iff
    {others : Options} {element : Element} {consumed : Option UInt64}
    (greedy : options.strategy = .greedy) :
    (matchElement options grammar element input offset place).outcome =
        .ok consumed ↔
      ∃ found,
        Greedy.Settles (setting others grammar input) options.limit
          (element, offset) found ∧
        consumed = found.map (· - offset) := by
  rw [outcome_matchElement_greedy greedy, map_eq_ok_iff]
  constructor
  · rintro ⟨found, returned, same⟩
    exact ⟨found, settles_of_greedyEnd returned, same.symm⟩
  · rintro ⟨found, settles, same⟩
    exact ⟨found, greedyEnd_of_settles settles, same.symm⟩

/-- Greedy matching of a repetition finds what goes with the place where its
rounds come to rest. There is no more than one such place, and the repetition
gets there after no more rounds than there are octets left, and one more. If
there is one, then one level above that of the rounds is enough to find it. -/
theorem repetition_finds_rest
    (fits : input.length < UInt64.size) (greedy : options.strategy = .greedy)
    (inside : offset.toNat ≤ input.length) :
    (∀ consumed,
      (matchElement options grammar (.repetition bounds body) input offset
        place).outcome = .ok consumed →
      ∃ count start,
        (repeating options grammar bounds body input offset).Rests count
          start ∧
        consumed =
          ((repeating options grammar bounds body input offset).found count
            start).map (· - offset)) ∧
    (∀ count start count' start',
      (repeating options grammar bounds body input offset).Rests count
        start →
      (repeating options grammar bounds body input offset).Rests count'
        start' →
      count = count' ∧ start = start') ∧
    (∀ count start,
      (repeating options grammar bounds body input offset).Rests count
        start →
      count ≤ input.length - offset.toNat + 1 ∧
      (matchElement { options with limit := options.limit + 1 } grammar
        (.repetition bounds body) input offset place).outcome =
          .ok
            (((repeating options grammar bounds body input offset).found
              count start).map (· - offset))) := by
  refine ⟨?_, ?_, ?_⟩
  · intro consumed returned
    obtain ⟨found, settles, rfl⟩ :=
      (matchElement_greedy_eq_ok_iff greedy).mp returned
    obtain ⟨count, start, rests, rfl⟩ :=
      (settles_repetition_iff fits greedy inside).mp settles.deeper
    exact ⟨count, start, rests, rfl⟩
  · intro count start count' start' first second
    exact first.unique second
  · intro count start rests
    have settles :=
      (settles_repetition_iff fits greedy inside).mpr
        ⟨count, start, rests, rfl⟩
    have higher :
        ({ options with limit := options.limit + 1 } : Options).strategy =
          .greedy :=
      greedy
    refine ⟨rests.count_le (inRange_repeating fits greedy inside), ?_⟩
    exact (matchElement_greedy_eq_ok_iff higher).mpr ⟨_, settles, rfl⟩

end Repetition

/-- The repetition `5*["a"]` from the beginning of `"aab"`. -/
def idlingLetters : Greedy.Repeating :=
  repeating {} none (.atLeast 5)
    (.option (.terminal (.caseless (octets "a")))) (octets "aab") 0

/-- The third round finds no octet. -/
theorem rests_idlingLetters : idlingLetters.Rests 3 2 := by
  have first : idlingLetters.Underway 0 0 :=
    Greedy.Repeating.underway_zero
  have second : idlingLetters.Underway 1 1 := by
    refine ⟨rfl, ?_, by decide, by decide⟩
    exact Greedy.Repeating.notYet_succ first.reached first.notYet
      (first.not_over (by decide) (by decide))
  have third : idlingLetters.Underway 2 2 := by
    refine ⟨rfl, ?_, by decide, by decide⟩
    exact Greedy.Repeating.notYet_succ second.reached second.notYet
      (second.not_over (by decide) (by decide))
  refine ⟨rfl, .idle (by decide), ?_⟩
  exact Greedy.Repeating.notYet_succ third.reached third.notYet
    (third.not_over (by decide) (by decide))

/-- The idle round stands for those that are missing to five. -/
theorem repetition_finds_rest_idlingLetters :
    3 ≤ (octets "aab").length - (0 : Offset).toNat + 1 ∧
    (matchElement { limit := 1001 } none
      (.repetition (.atLeast 5)
        (.option (.terminal (.caseless (octets "a"))))) (octets "aab")
        0).outcome = .ok (some 2) := by
  have fits : (octets "aab").length < UInt64.size := by
    decide
  have inside : (0 : Offset).toNat ≤ (octets "aab").length := by
    decide
  exact (@repetition_finds_rest {} none (.atLeast 5)
    (.option (.terminal (.caseless (octets "a")))) (octets "aab") 0 .tested
    fits rfl inside).2.2 3 2 rests_idlingLetters

end Conformance

end AbnfMatching
