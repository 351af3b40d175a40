import AbnfMatching.Proofs.Omissions
import AbnfMatching.Proofs.Verdicts

/-!
# Greedy matches among all matches

Exhaustive matching reports what greedy matching finds, left recursion or not,
unless it has made use of an out-of-date end set: one that came from the table
and leaves out a visit which had been completed by then. Even then a greedy
match is reported if greedy matching does not succeed at the visits left out.
-/

namespace AbnfMatching

namespace Exhaustive

/-- Matching that returns has an account. -/
theorem exists_account_of_run
    {setting : Setting} {limit : Nat} {occurrence : Occurrence}
    {offset : Offset} {ends : Ends}
    (returned : (run setting limit occurrence offset).1 = .ok ends) :
    ∃ entry,
      (perform (account setting limit [] occurrence offset)
        fun _ => none).1 = .ok entry ∧
      entry.ends = ends := by
  have same : SameEnds (fun _ => none) ⟨.empty, #[]⟩ := by
    intro visit
    rw [Table.find?_empty]
    rfl
  exact (account_simulates _ _ same).of_ok returned

end Exhaustive

namespace Conformance

section Omissions

variable (options : Options) (grammar : Option Grammar) (input : Octets)

/-- The visits that are left out by the listed ends of an element: when the
ends were computed, some end set was out of date as to these visits. -/
def omissions (element : Element) (offset : Offset) (place : Place := .tested) :
    List Visit :=
  match (perform
    (Exhaustive.account (setting options grammar input) options.limit []
      (place.occurrence element) offset) fun _ => none).1 with
  | .ok account => account.omitted
  | .error _ => []

/-- Greedy matching does not succeed at any of the visits. -/
def GreedyFailsAt (subject : Element) (visits : List Visit) : Prop :=
  ∀ (occurrence : Occurrence) (start : Offset),
    occurrence.Placed grammar subject →
    occurrence.visitAt start ∈ visits →
    ∀ stop,
      (greedyEnd options grammar occurrence.element input start).outcome ≠
        .ok (some stop)

end Omissions

section Outcomes

variable {options others : Options} {grammar : Option Grammar}
  {element : Element} {input : Octets} {offset : Offset} {place : Place}

/-- What greedy matching finds under some options is settled in the setting of
any other options. -/
theorem settles_of_greedyEnd
    {found : Option Offset}
    (returned : (greedyEnd options grammar element input offset).outcome =
      .ok found) :
    Greedy.Settles (setting others grammar input) options.limit
      (element, offset) found := by
  have settles : Greedy.Settles (setting options grammar input) options.limit
      (element, offset) found :=
    Greedy.settles_of_evaluate #[] returned
  exact settles.of_verbose

theorem greedyEnd_of_settles
    {found : Option Offset}
    (settles : Greedy.Settles (setting others grammar input) options.limit
      (element, offset) found) :
    (greedyEnd options grammar element input offset).outcome = .ok found := by
  have settles' : Greedy.Settles (setting options grammar input)
      options.limit (element, offset) found :=
    settles.of_verbose
  exact Greedy.evaluate_of_settles settles'

/-- The end of a greedy match is among all ends. -/
theorem mem_of_greedyEnd
    {stop : Offset} {ends : Ends}
    (fits : input.length < UInt64.size)
    (holds : place.Holds grammar element)
    (inside : offset.toNat ≤ input.length)
    (matched : (greedyEnd options grammar element input offset).outcome =
      .ok (some stop))
    (returned : (allEnds others grammar element input offset place).outcome =
      .ok ends)
    (fails : GreedyFailsAt options grammar input element
      (omissions others grammar input element offset place)) :
    stop ∈ ends := by
  have insideSetting :
      offset.toNat ≤ (setting others grammar input).input.size := by
    rw [size_setting]
    exact inside
  have placed : (place.occurrence element).Placed
      (setting others grammar input).grammar element :=
    holds
  rw [outcome_allEnds] at returned
  obtain ⟨account, accounted, rfl⟩ :=
    Exhaustive.exists_account_of_run returned
  have omitted :
      omissions others grammar input element offset place =
        account.omitted := by
    unfold omissions
    rw [accounted]
  have finds :
      Finds (setting others grammar input) options.limit account.omitted
        (place.occurrence element) offset stop := by
    apply Greedy.Settles.finds placed (settles_of_greedyEnd matched)
    intro outer start outerPlaced member outerStop settled
    rw [← omitted] at member
    exact fails outer start outerPlaced member outerStop
      (greedyEnd_of_settles settled)
  have upheld := Exhaustive.account_warranted others.limit []
    (addressable_setting others grammar fits) placed insideSetting
    (fun _ => none) Exhaustive.ledgerWarranted_empty
  have warranted := upheld.2 account accounted
  exact (warranted _ _ (List.Subset.refl _)).complete stop finds

theorem judgeEnds_of_mem
    {rule : RuleName} {total : UInt64} {ends : Ends}
    (member : total ∈ ends) :
    judgeEnds rule total ends = .ok () := by
  have nonempty : ends.farthest? ≠ none := by
    intro nothing
    have empty : ends.offsets = [] := List.getLast?_eq_none_iff.mp nothing
    rw [Ends.mem_def, empty] at member
    cases member
  unfold judgeEnds
  split
  · next nothing => exact absurd nothing nonempty
  · rw [if_pos member]

theorem validate_greedy_eq_ok_iff
    {rule : Rule} (greedy : options.strategy = .greedy) :
    (validate options grammar rule input place).outcome = .ok () ↔
      (greedyEnd options grammar rule.element input 0).outcome =
        .ok (some (UInt64.ofNat input.length)) := by
  rw [outcome_validate_greedy greedy]
  cases (greedyEnd options grammar rule.element input 0).outcome with
  | error cause =>
      constructor <;> intro impossible <;> cases impossible
  | ok stop =>
      change judgeEnd rule.name _ stop = .ok () ↔ _
      rw [judgeEnd_eq_ok_iff, Except.ok.injEq]

theorem validate_exhaustive_of_mem
    {rule : Rule} {ends : Ends}
    (exhaustive : options.strategy = .exhaustive)
    (returned : (allEnds options grammar rule.element input 0 place).outcome =
      .ok ends)
    (member : UInt64.ofNat input.length ∈ ends) :
    (validate options grammar rule input place).outcome = .ok () := by
  rw [outcome_validate_exhaustive exhaustive, returned]
  exact judgeEnds_of_mem member

theorem validate_exhaustive_of_error
    {rule : Rule} {cause : Fault}
    (exhaustive : options.strategy = .exhaustive)
    (returned : (allEnds options grammar rule.element input 0 place).outcome =
      .error cause) :
    (validate options grammar rule input place).outcome =
      .error (.fault cause) := by
  rw [outcome_validate_exhaustive exhaustive, returned]
  rfl

end Outcomes

/-- What greedy matching consumes is listed among all lengths, and an input that
conforms greedily conforms exhaustively, unless exhaustive matching ends in a
fault or leaves out visits at which greedy matching succeeds. -/
theorem greedy_among_all
    {options others : Options} {grammar : Option Grammar}
    (name : RuleName) {element : Element} {input : Octets} {place : Place}
    (fits : input.length < UInt64.size)
    (holds : place.Holds grammar element)
    (greedy : options.strategy = .greedy) :
    (∀ (offset : Offset) (consumed : UInt64) (lengths : List UInt64),
      offset.toNat ≤ input.length →
      (matchElement options grammar element input offset place).outcome =
        .ok (some consumed) →
      (matchLengths others grammar element input offset place).outcome =
        .ok lengths →
      GreedyFailsAt options grammar input element
        (omissions others grammar input element offset place) →
      consumed ∈ lengths) ∧
    (others.strategy = .exhaustive →
      (validate options grammar ⟨name, element⟩ input place).outcome =
        .ok () →
      GreedyFailsAt options grammar input element
        (omissions others grammar input element 0 place) →
      (validate others grammar ⟨name, element⟩ input place).outcome =
          .ok () ∨
        ∃ cause,
          (validate others grammar ⟨name, element⟩ input place).outcome =
            .error (.fault cause)) := by
  refine ⟨?_, ?_⟩
  · intro offset consumed lengths inside matched returned fails
    rw [outcome_matchElement_greedy greedy] at matched
    obtain ⟨found, greedyFound, mapped⟩ := map_eq_ok_iff.mp matched
    obtain ⟨stop, rfl, rfl⟩ := Option.map_eq_some_iff.mp mapped
    rw [outcome_matchLengths] at returned
    obtain ⟨ends, allFound, rfl⟩ := map_eq_ok_iff.mp returned
    have member :=
      mem_of_greedyEnd fits holds inside greedyFound allFound fails
    exact List.mem_map.mpr ⟨stop, member, rfl⟩
  · intro exhaustive accepted fails
    have matched := (validate_greedy_eq_ok_iff greedy).mp accepted
    rcases found :
        (allEnds others grammar element input 0 place).outcome with
      cause | ends
    · exact Or.inr ⟨cause, validate_exhaustive_of_error exhaustive found⟩
    · left
      have inside : (0 : Offset).toNat ≤ input.length :=
        Nat.zero_le _
      have member :=
        mem_of_greedyEnd fits holds inside matched found fails
      exact validate_exhaustive_of_mem exhaustive found member

section Samples

private def letterA : Element := .terminal (.caseless (octets "a"))
private def letterX : Element := .terminal (.caseless (octets "x"))
private def letterY : Element := .terminal (.caseless (octets "y"))
private def nameA : RuleName := .ofText "a"
private def nameB : RuleName := .ofText "b"

/-- The rules `a = "a" / b`, `b = a "x"` and `s = a "y" / b`. The visit of `b`
within that of `a` leaves out `a` and is out of date when `s` comes to `b`. -/
def outdated : Grammar :=
  .ofRules
    [⟨nameA, .alternation [letterA, .reference nameB]⟩,
      ⟨nameB, .sequence [.reference nameA, letterX]⟩,
      ⟨.ofText "s", .alternation
        [.sequence [.reference nameA, letterY], .reference nameB]⟩]

theorem greedy_not_among_all :
    (validateNamed {} outdated (octets "s") (octets "ax")).outcome =
      .ok () ∧
    (validateNamed { strategy := .exhaustive } outdated (octets "s")
      (octets "ax")).outcome =
        .error (.rejected (.mismatch (.ofText "s"))) := by
  exact ⟨rfl, rfl⟩

/-- The rule `a = b / "a"`, for which greedy matching does not come to an
end if `b = a "x"`. -/
def endless : Rule :=
  ⟨nameA, .alternation [.reference nameB, letterA]⟩

/-- The element `"ax" / a "y" / b`. -/
def settledFirst : Element :=
  .alternation
    [.terminal (.caseless (octets "ax")),
      .sequence [.reference nameA, letterY], .reference nameB]

/-- The rules `a = b / "a"` and `b = a "x"`. -/
def endlessRules : Grammar :=
  .ofRules [endless, ⟨nameB, .sequence [.reference nameA, letterX]⟩]

theorem greedy_among_all_endless :
    omissions {} (some endlessRules) (octets "ax") settledFirst 0 =
      [⟨0, 0, .rule endless.key⟩] ∧
    (matchElement { limit := 8 } (some endlessRules) settledFirst
      (octets "ax") 0).outcome = .ok (some 2) ∧
    (matchLengths {} (some endlessRules) settledFirst
      (octets "ax") 0).outcome = .ok [2] ∧
    (2 : UInt64) ∈ [(2 : UInt64)] := by
  have omitted :
      omissions {} (some endlessRules) (octets "ax") settledFirst 0 =
        [⟨0, 0, .rule endless.key⟩] := by
    decide +kernel
  have matched :
      (matchElement { limit := 8 } (some endlessRules) settledFirst
        (octets "ax") 0).outcome = .ok (some 2) := by
    rfl
  have returned :
      (matchLengths {} (some endlessRules) settledFirst
        (octets "ax") 0).outcome = .ok [2] := by
    rfl
  have fails :
      GreedyFailsAt { limit := 8 } (some endlessRules) (octets "ax")
        settledFirst
        (omissions {} (some endlessRules) (octets "ax") settledFirst 0) := by
    intro occurrence start placed member stop found
    have meaning : ruleOf (some endlessRules) nameA = some endless := by
      rfl
    have same := List.mem_singleton.mp (omitted ▸ member)
    have rootPlaced :
        (Occurrence.root (.rule endless.key) endless.element).Placed
          (some endlessRules) settledFirst :=
      Occurrence.placed_root (Tree.root?_of_ruleOf meaning)
    obtain ⟨rfl, rfl⟩ := placed.unique_of_visitAt rootPlaced same
    have endlessly :
        (greedyEnd { limit := 8 } (some endlessRules) endless.element
          (octets "ax") 0).outcome = .error (.tooDeep 8) := by
      rfl
    cases endlessly.symm.trans found
  have fits : (octets "ax").length < UInt64.size := by
    decide
  have greedy : ({ limit := 8 } : Options).strategy = .greedy := by
    rfl
  have inside : (0 : Offset).toNat ≤ (octets "ax").length :=
    Nat.zero_le _
  have member := (greedy_among_all nameA fits Place.holds_tested greedy).1
    0 2 [2] inside matched returned fails
  exact ⟨omitted, matched, returned, member⟩

end Samples

end Conformance

end AbnfMatching
