import AbnfMatching.Proofs.Soundness
import Mathlib.Data.List.Pairwise

/-!
# Verdicts and matches

An input can be checked against a rule, the check can be read as a decision,
the right-hand side of the rule can be matched from the beginning of the input,
and all lengths that it can consume there can be listed. These are four ways of
asking the same question. A check under the exhaustive strategy asks whether
the end of the input is among all ends, while a match reports the farthest of
them only; but no end lies beyond the end of the input, so that the one answer
determines the other.
-/

namespace AbnfMatching

/-- No member of an end set lies beyond the farthest one. -/
theorem Ends.le_of_farthest?
    {ends : Ends} {farthest stop : Offset}
    (isFarthest : ends.farthest? = some farthest) (member : stop ∈ ends) :
    stop ≤ farthest := by
  have nonempty : ends.offsets ≠ [] := List.ne_nil_of_mem member
  have last : ends.offsets.getLast nonempty = farthest := by
    rw [farthest?, List.getLast?_eq_some_getLast nonempty] at isFarthest
    exact Option.some.inj isFarthest
  have ascending : ends.offsets.Pairwise (· ≤ ·) :=
    ends.ascending.imp UInt64.le_of_lt
  rw [← last]
  exact ascending.rel_getLast_of_rel_getLast_getLast member
    (UInt64.le_refl _)

namespace Conformance

/-! ## Judging what has been found -/

section Judging

variable {α : Type} {reported : Except Fault α}
  {judge : α → Except Failure Unit} {name : RuleName} {total : UInt64}
  {found : Option Offset} {ends : Ends}

/-- An input is accepted on account of something that has been found. -/
theorem judged_eq_ok_iff :
    (reported.mapError .fault >>= judge) = .ok () ↔
      ∃ found, reported = .ok found ∧ judge found = .ok () := by
  cases reported <;> simp [Except.mapError, bind, Except.bind]

/-- So it is rejected. -/
theorem judged_eq_rejected_iff {rejection : Rejection} :
    (reported.mapError .fault >>= judge) = .error (.rejected rejection) ↔
      ∃ found, reported = .ok found ∧
        judge found = .error (.rejected rejection) := by
  cases reported <;> simp [Except.mapError, bind, Except.bind]

/-- If judging raises no faults, they all come from what is judged. -/
theorem judged_eq_fault_iff
    {cause : Fault}
    (silent : ∀ found cause, judge found ≠ .error (.fault cause)) :
    (reported.mapError .fault >>= judge) = .error (.fault cause) ↔
      reported = .error cause := by
  cases reported <;> simp [Except.mapError, bind, Except.bind, silent]

theorem judgeEnd_eq_ok_iff :
    judgeEnd name total found = .ok () ↔ found = some total := by
  cases found with
  | none => simp [judgeEnd]
  | some stop => simp [judgeEnd]

theorem judgeEnd_eq_mismatch_iff {blamed : RuleName} :
    judgeEnd name total found = .error (.rejected (.mismatch blamed)) ↔
      blamed = name ∧ found = none := by
  cases found with
  | none => simp [judgeEnd, eq_comm]
  | some stop =>
      by_cases whole : stop = total <;> simp [judgeEnd, whole]

theorem judgeEnd_eq_incomplete_iff
    {blamed : RuleName} {consumed length : UInt64} :
    judgeEnd name total found =
        .error (.rejected (.incomplete blamed consumed length)) ↔
      blamed = name ∧ length = total ∧ consumed ≠ length ∧
        found = some consumed := by
  cases found with
  | none => simp [judgeEnd]
  | some stop =>
      by_cases whole : stop = total
      · simp only [judgeEnd, whole, if_true, reduceCtorEq, false_iff]
        rintro ⟨_, rfl, notWhole, same⟩
        exact notWhole (Option.some.inj same).symm
      · simp only [judgeEnd, whole, if_false]
        grind

theorem judgeEnd_ne_fault {cause : Fault} :
    judgeEnd name total found ≠ .error (.fault cause) := by
  cases found with
  | none => simp [judgeEnd]
  | some stop =>
      by_cases whole : stop = total <;> simp [judgeEnd, whole]

theorem judgeEnds_ne_fault {cause : Fault} :
    judgeEnds name total ends ≠ .error (.fault cause) := by
  unfold judgeEnds
  split
  · simp
  · split <;> simp

/-- Among ends that do not lie beyond the end of the input, the farthest one
alone decides. -/
theorem judgeEnds_eq_judgeEnd
    (within : ∀ stop ∈ ends, stop ≤ total) :
    judgeEnds name total ends = judgeEnd name total ends.farthest? := by
  unfold judgeEnds judgeEnd
  cases isFarthest : ends.farthest? with
  | none =>
      rfl
  | some farthest =>
      have reaches : total ∈ ends ↔ farthest = total := by
        constructor
        · intro member
          exact UInt64.le_antisymm
            (within farthest (mem_of_farthest? isFarthest))
            (Ends.le_of_farthest? isFarthest member)
        · intro same
          exact same ▸ mem_of_farthest? isFarthest
      simp only [reaches]

end Judging

/-! ## Entry points -/

/-- What the verdict on an input under a rule has to do with what a match of
the right-hand side from the beginning of the input reports. -/
structure Reflects
    (rule : Rule) (input : Octets) (verdict : Except Failure Unit)
    (reported : Except Fault (Option UInt64)) : Prop where
  accepted : verdict = .ok () ↔
    reported = .ok (some (UInt64.ofNat input.length))
  incomplete : ∀ name consumed total,
    verdict = .error (.rejected (.incomplete name consumed total)) ↔
      name = rule.name ∧ total = UInt64.ofNat input.length ∧
        consumed ≠ total ∧ reported = .ok (some consumed)
  short : ∀ name consumed total,
    verdict = .error (.rejected (.incomplete name consumed total)) →
    total.toNat = input.length ∧ consumed.toNat < input.length
  mismatch : ∀ name,
    verdict = .error (.rejected (.mismatch name)) ↔
      name = rule.name ∧ reported = .ok none
  fault : ∀ cause,
    verdict = .error (.fault cause) ↔ reported = .error cause

/-- What a decision has to do with the verdict that it is made from. -/
structure Decides
    (decided : Except Fault Bool) (verdict : Except Failure Unit) : Prop where
  accepted : decided = .ok true ↔ verdict = .ok ()
  rejected : decided = .ok false ↔
    ∃ rejection, verdict = .error (.rejected rejection)
  fault : ∀ cause,
    decided = .error cause ↔ verdict = .error (.fault cause)

/-- What a match reports as consumed has to do with the list of all lengths that
can be consumed: it is the last of them. -/
structure ReportsLongest
    (reported : Except Fault (Option UInt64))
    (listed : Except Fault (List UInt64)) : Prop where
  nothing : reported = .ok none ↔ listed = .ok []
  longest : ∀ consumed, reported = .ok (some consumed) ↔
    ∃ lengths, listed = .ok lengths ∧ lengths.getLast? = some consumed
  fault : ∀ cause, reported = .error cause ↔ listed = .error cause

section EntryPoints

variable {options : Options} {grammar : Option Grammar} {rule : Rule}
  {element : Element} {input : Octets} {offset : Offset} {place : Place}

theorem le_total_of_mem_allEnds
    {ends : Ends} {stop : Offset}
    (fits : input.length < UInt64.size)
    (holds : place.Holds grammar element)
    (returned : (allEnds options grammar element input 0 place).outcome =
      .ok ends)
    (member : stop ∈ ends) :
    stop ≤ UInt64.ofNat input.length := by
  have inside : (0 : Offset).toNat ≤ input.length := Nat.zero_le _
  have spans :=
    Exhaustive.run_sound (addressable_setting options grammar fits) holds
      (inside_setting options grammar inside) returned stop member
  have stopInside := spans.inside
  rw [size_setting] at stopInside
  rw [UInt64.le_iff_toNat_le, UInt64.toNat_ofNat_of_lt' fits]
  exact stopInside

/-- A check judges what a match from the beginning of the input reports. -/
theorem outcome_validate_eq
    (fits : input.length < UInt64.size)
    (holds : place.Holds grammar rule.element) :
    (validate options grammar rule input place).outcome =
      ((matchElement options grammar rule.element input 0
        place).outcome.mapError .fault >>=
          judgeEnd rule.name (UInt64.ofNat input.length)) := by
  have fromStart : ∀ found : Option Offset,
      found.map (· - (0 : Offset)) = found := by
    intro found
    simp
  cases strategy : options.strategy with
  | greedy =>
      rw [outcome_validate_greedy strategy,
        outcome_matchElement_greedy strategy]
      simp only [fromStart]
      cases (greedyEnd options grammar rule.element input 0).outcome <;> rfl
  | exhaustive =>
      rw [outcome_validate_exhaustive strategy,
        outcome_matchElement_exhaustive strategy]
      simp only [fromStart]
      cases returned :
          (allEnds options grammar rule.element input 0 place).outcome with
      | error cause =>
          rfl
      | ok ends =>
          exact judgeEnds_eq_judgeEnd fun stop member =>
            le_total_of_mem_allEnds fits holds returned member

/-- A match that consumes no more than the whole input says what the verdict on
the input is. -/
theorem reflects_judged
    {reported : Except Fault (Option UInt64)}
    (fits : input.length < UInt64.size)
    (within : ∀ consumed, reported = .ok (some consumed) →
      consumed.toNat ≤ input.length) :
    Reflects rule input
      (reported.mapError .fault >>=
        judgeEnd rule.name (UInt64.ofNat input.length))
      reported := by
  have total : (UInt64.ofNat input.length).toNat = input.length :=
    UInt64.toNat_ofNat_of_lt' fits
  have incomplete : ∀ name consumed length,
      (reported.mapError .fault >>=
          judgeEnd rule.name (UInt64.ofNat input.length)) =
        .error (.rejected (.incomplete name consumed length)) ↔
      name = rule.name ∧ length = UInt64.ofNat input.length ∧
        consumed ≠ length ∧ reported = .ok (some consumed) := by
    intro name consumed length
    rw [judged_eq_rejected_iff]
    simp only [judgeEnd_eq_incomplete_iff]
    constructor
    · rintro ⟨_, returned, blamed, whole, differs, rfl⟩
      exact ⟨blamed, whole, differs, returned⟩
    · rintro ⟨blamed, whole, differs, returned⟩
      exact ⟨_, returned, blamed, whole, differs, rfl⟩
  refine ⟨?_, incomplete, ?_, ?_, ?_⟩
  · rw [judged_eq_ok_iff]
    simp only [judgeEnd_eq_ok_iff, exists_eq_right]
  · intro name consumed length rejected
    obtain ⟨_, rfl, differs, returned⟩ :=
      (incomplete name consumed length).mp rejected
    refine ⟨total, Nat.lt_of_le_of_ne (within consumed returned) ?_⟩
    intro same
    exact differs (UInt64.toNat.inj (same.trans total.symm))
  · intro name
    rw [judged_eq_rejected_iff]
    simp only [judgeEnd_eq_mismatch_iff]
    constructor
    · rintro ⟨_, returned, blamed, rfl⟩
      exact ⟨blamed, returned⟩
    · rintro ⟨blamed, returned⟩
      exact ⟨_, returned, blamed, rfl⟩
  · intro cause
    exact judged_eq_fault_iff fun _ _ => judgeEnd_ne_fault

/-- From the beginning of the input, no more than the whole of it is
consumed. -/
theorem consumed_le_of_matchElement
    {consumed : UInt64}
    (fits : input.length < UInt64.size)
    (holds : place.Holds grammar element)
    (returned : (matchElement options grammar element input 0 place).outcome =
      .ok (some consumed)) :
    consumed.toNat ≤ input.length := by
  have inside : (0 : Offset).toNat ≤ input.length := Nat.zero_le _
  cases strategy : options.strategy with
  | greedy =>
      rw [outcome_matchElement_greedy strategy] at returned
      obtain ⟨found, greedyFound, mapped⟩ := map_eq_ok_iff.mp returned
      obtain ⟨stop, rfl, rfl⟩ := Option.map_eq_some_iff.mp mapped
      have spans := Greedy.run_sound
        (addressable_setting options grammar fits)
        (inside_setting options grammar inside) greedyFound
      simpa using spans.inside
  | exhaustive =>
      rw [outcome_matchElement_exhaustive strategy] at returned
      obtain ⟨ends, found, mapped⟩ := map_eq_ok_iff.mp returned
      obtain ⟨stop, farthest, rfl⟩ := Option.map_eq_some_iff.mp mapped
      have bounded := le_total_of_mem_allEnds fits holds found
        (mem_of_farthest? farthest)
      rw [UInt64.le_iff_toNat_le, UInt64.toNat_ofNat_of_lt' fits] at bounded
      simpa using bounded

theorem validate_reflects
    (fits : input.length < UInt64.size)
    (holds : place.Holds grammar rule.element) :
    Reflects rule input (validate options grammar rule input place).outcome
      (matchElement options grammar rule.element input 0 place).outcome := by
  rw [outcome_validate_eq fits holds]
  exact reflects_judged fits fun _ =>
    consumed_le_of_matchElement fits holds

theorem decision_decides (verdict : Except Failure Unit) :
    Decides (decision verdict) verdict := by
  rcases verdict with (rejection | cause) | _ <;>
    constructor <;> simp [decision]

theorem outcome_conforms :
    (conforms options grammar rule input place).outcome =
      decision (validate options grammar rule input place).outcome :=
  rfl

theorem outcome_conformsNamed
    {present : Grammar} {name : Octets} :
    (conformsNamed options present name input).outcome =
      decision (validateNamed options present name input).outcome := by
  unfold conformsNamed validateNamed
  cases present.fetch name <;> rfl

theorem outcome_matchElement_eq_getLast?
    (exhaustive : options.strategy = .exhaustive) :
    (matchElement options grammar element input offset place).outcome =
      (matchLengths options grammar element input offset place).outcome.map
        List.getLast? := by
  rw [outcome_matchElement_exhaustive exhaustive, outcome_matchLengths]
  cases (allEnds options grammar element input offset place).outcome with
  | error cause => rfl
  | ok ends =>
      simp only [Except.map, Ends.farthest?, List.getLast?_map]

theorem reportsLongest_getLast? (listed : Except Fault (List UInt64)) :
    ReportsLongest (listed.map List.getLast?) listed := by
  cases listed <;> constructor <;> simp [Except.map]

end EntryPoints

/-- The entry points agree: a verdict is what a match from the beginning of the
input says, a decision is what the verdict says, and under the exhaustive
strategy a match reports the longest of the lengths that are listed. The
elements stand at the same place each time. -/
theorem entryPoints_agree
    {options : Options} {grammar : Option Grammar} {input : Octets}
    (fits : input.length < UInt64.size) :
    (∀ rule place, place.Holds grammar rule.element →
      Reflects rule input
        (validate options grammar rule input place).outcome
        (matchElement options grammar rule.element input 0 place).outcome) ∧
    (∀ present name rule, grammar = some present →
      present.fetch name = .ok rule →
      Reflects rule input
        (validateNamed options present name input).outcome
        (matchElement options grammar rule.element input 0
          (.rule rule.key)).outcome) ∧
    (∀ rule place,
      Decides (conforms options grammar rule input place).outcome
        (validate options grammar rule input place).outcome) ∧
    (∀ present name,
      Decides (conformsNamed options present name input).outcome
        (validateNamed options present name input).outcome) ∧
    (∀ element offset place,
      ReportsLongest
        (matchElement { options with strategy := .exhaustive } grammar
          element input offset place).outcome
        (matchLengths options grammar element input offset place).outcome) := by
  refine ⟨?_, ?_, ?_, ?_, ?_⟩
  · intro rule place holds
    exact validate_reflects fits holds
  · intro present name rule isPresent found
    subst isPresent
    rw [outcome_validateNamed found]
    exact validate_reflects fits (Place.holds_of_fetch found)
  · intro rule place
    rw [outcome_conforms]
    exact decision_decides _
  · intro present name
    rw [outcome_conformsNamed]
    exact decision_decides _
  · intro element offset place
    rw [outcome_matchElement_eq_getLast? rfl]
    exact reportsLongest_getLast? _

/-- The rule `xs = xs "x" / "x"`, given by name, matches one octet of two: the
verdict on both is that the match is incomplete, and conversely. -/
theorem entryPoints_agree_growingLeft :
    (validateNamed { strategy := .exhaustive } (.ofRules [growingLeft])
      (octets "xs") (octets "xx")).outcome =
        .error (.rejected (.incomplete growingLeft.name 1 2)) ∧
    (matchElement { strategy := .exhaustive } (some (.ofRules [growingLeft]))
      growingLeft.element (octets "xx") 0 (.rule growingLeft.key)).outcome =
        .ok (some 1) := by
  have fits : (octets "xx").length < UInt64.size := by
    decide
  have found : Grammar.fetch (.ofRules [growingLeft]) (octets "xs") =
      .ok growingLeft := by
    rfl
  have rejected :
      (validateNamed { strategy := .exhaustive } (.ofRules [growingLeft])
        (octets "xs") (octets "xx")).outcome =
          .error (.rejected (.incomplete growingLeft.name 1 2)) := by
    rfl
  have agree :=
    @entryPoints_agree { strategy := .exhaustive }
      (some (.ofRules [growingLeft])) (octets "xx") fits
  have reflects := agree.2.1 _ (octets "xs") growingLeft rfl found
  exact ⟨rejected, ((reflects.incomplete _ _ _).mp rejected).2.2.2⟩

end Conformance

end AbnfMatching
