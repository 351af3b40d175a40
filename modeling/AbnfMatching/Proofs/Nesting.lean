import AbnfMatching.Proofs.EndingRounds
import AbnfMatching.Proofs.Nodes

/-!
# Exhaustive matching needs no limit

The visits under way are all different, because a visit that is met again while
it is under way is not made once more. They are visits in reach of the element
under test. The depth of a match is therefore bounded by the number of visits in
reach, and a limit that is no less than this number is never reached, whatever
the grammar. The repetitions on the way come to an end by themselves.
-/

namespace AbnfMatching

namespace Exhaustive

/-- An occurrence in reach and different visits in reach that are under way when
it is visited. -/
structure Nested
    (setting : Setting) (place : Place) (element : Element) (origin : Offset)
    (active : List Visit) (occurrence : Occurrence) (offset : Offset) :
    Prop where
  inReach : occurrence.InReach setting.grammar place element
  ordered : origin ≤ offset
  inside : offset.toNat ≤ setting.input.size
  nodup : active.Nodup
  activeInReach : ∀ visit ∈ active,
    visit ∈ visitsInReach setting place element origin

section Nested

variable {setting : Setting} {place : Place} {element : Element}
  {origin offset : Offset} {active : List Visit} {occurrence : Occurrence}

/-- A visit that is not under way yet joins those that are. -/
theorem Nested.nodup_cons
    (nested : Nested setting place element origin active occurrence offset)
    (notUnderWay : occurrence.visitAt offset ∉ active) :
    (occurrence.visitAt offset :: active).Nodup :=
  List.nodup_cons.mpr ⟨notUnderWay, nested.nodup⟩

theorem Nested.inReach_cons
    (nested : Nested setting place element origin active occurrence offset) :
    ∀ visit ∈ occurrence.visitAt offset :: active,
      visit ∈ visitsInReach setting place element origin := by
  intro visit member
  rcases List.mem_cons.mp member with rfl | outside
  · exact nested.inReach.visit_mem nested.ordered nested.inside
  · exact nested.activeInReach visit outside

theorem Nested.length_lt
    (nested : Nested setting place element origin active occurrence offset)
    (notUnderWay : occurrence.visitAt offset ∉ active) :
    active.length <
      visitCount setting.grammar place element setting.input.size origin := by
  have bounded := length_le_of_nodup (nested.nodup_cons notUnderWay)
    nested.inReach_cons
  rw [List.length_cons] at bounded
  exact bounded

theorem Nested.asked
    {question : Occurrence × Offset}
    (nested : Nested setting place element origin active occurrence offset)
    (notUnderWay : occurrence.visitAt offset ∉ active)
    (asks : Asks setting occurrence offset question) :
    Nested setting place element origin (occurrence.visitAt offset :: active)
      question.1 question.2 :=
  ⟨nested.inReach.below asks.below,
    UInt64.le_trans nested.ordered asks.ordered, asks.inside,
    nested.nodup_cons notUnderWay, nested.inReach_cons⟩

/-- With as many levels as there are visits in reach, nothing but a missing rule
stops a match. -/
theorem run_isUnresolved
    {limit : Nat} {cause : Fault}
    (fits : setting.Addressable)
    (holds : place.Holds setting.grammar element)
    (inside : origin.toNat ≤ setting.input.size)
    (enough :
      visitCount setting.grammar place element setting.input.size origin ≤
        limit)
    (failed :
      (run setting limit (place.occurrence element) origin).1 = .error cause) :
    cause.IsUnresolved := by
  have nested :
      Nested setting place element origin [] (place.occurrence element)
        origin :=
    ⟨Occurrence.inReach_start holds, UInt64.le_refl origin, inside,
      List.nodup_nil, fun _ member => absurd member List.not_mem_nil⟩
  refine fault_of_visit element Fault.IsUnresolved
    (fun room active occurrence offset =>
      Nested setting place element origin active occurrence offset ∧
        visitCount setting.grammar place element setting.input.size origin ≤
          active.length + room)
    fits ?_ ?_ ?_ ?_ ⟨nested, by simpa using enough⟩ filedWell_empty failed
  · intro room active occurrence offset ready
    exact ⟨ready.1.inReach.placed, ready.1.inside⟩
  · intro active occurrence offset ready notUnderWay
    have shallow := ready.1.length_lt notUnderWay
    exact absurd ready.2 (by omega)
  · intro room active occurrence offset own ready denies
    exact denies.isUnresolved ready.1.inside
  · intro room active occurrence offset question ready notUnderWay asks
    refine ⟨ready.1.asked notUnderWay asks, ?_⟩
    have levels := ready.2
    rw [List.length_cons]
    omega

end Nested

end Exhaustive

/-! ## Entry points -/

namespace Conformance

/-- A match has come to a result, or a rule was missing. -/
def Concluded {α : Type} (outcome : Except Fault α) : Prop :=
  (∃ value, outcome = .ok value) ∨
    ∃ cause, cause.IsUnresolved ∧ outcome = .error cause

/-- A check has accepted or rejected the input, or a rule was missing. -/
def Judged (outcome : Except Failure Unit) : Prop :=
  outcome = .ok () ∨ (∃ rejection, outcome = .error (.rejected rejection)) ∨
    ∃ cause, cause.IsUnresolved ∧ outcome = .error (.fault cause)

section Concluded

variable {options : Options} {grammar : Option Grammar} {element : Element}
  {input : Octets} {offset : Offset} {place : Place}

theorem concluded_of_faults
    {α : Type} {outcome : Except Fault α}
    (faults : ∀ cause, outcome = .error cause → cause.IsUnresolved) :
    Concluded outcome := by
  cases outcome with
  | ok value => exact Or.inl ⟨value, rfl⟩
  | error cause => exact Or.inr ⟨cause, faults cause rfl, rfl⟩

theorem Concluded.map
    {α β : Type} {outcome : Except Fault α} {change : α → β}
    (concluded : Concluded outcome) :
    Concluded (outcome.map change) := by
  rcases concluded with ⟨value, rfl⟩ | ⟨cause, unresolved, rfl⟩
  · exact Or.inl ⟨change value, rfl⟩
  · exact Or.inr ⟨cause, unresolved, rfl⟩

theorem judgeEnds_judged (rule : RuleName) (total : UInt64) (ends : Ends) :
    Judged (judgeEnds rule total ends) := by
  unfold judgeEnds
  split
  · exact Or.inr (Or.inl ⟨_, rfl⟩)
  · split
    · exact Or.inl rfl
    · exact Or.inr (Or.inl ⟨_, rfl⟩)

theorem Concluded.judged
    {outcome : Except Fault Ends} (concluded : Concluded outcome)
    (rule : RuleName) (total : UInt64) :
    Judged (outcome.mapError .fault >>= judgeEnds rule total) := by
  rcases concluded with ⟨ends, rfl⟩ | ⟨cause, unresolved, rfl⟩
  · exact judgeEnds_judged rule total ends
  · exact Or.inr (Or.inr ⟨cause, unresolved, rfl⟩)

theorem allEnds_concluded
    (fits : input.length < UInt64.size)
    (holds : place.Holds grammar element)
    (inside : offset.toNat ≤ input.length)
    (enough :
      visitCount grammar place element input.length offset ≤ options.limit) :
    Concluded (allEnds options grammar element input offset place).outcome := by
  apply concluded_of_faults
  intro cause failed
  rw [outcome_allEnds] at failed
  refine Exhaustive.run_isUnresolved
    (addressable_setting options grammar fits) holds
    (inside_setting options grammar inside) ?_ failed
  rw [size_setting]
  exact enough

end Concluded

/-- With a limit that is no less than the number of visits in reach, exhaustive
matching comes to its result unless a rule is missing, whatever the grammar. No
repetition that it comes across is cut short: each one takes turns, and after
no more turns than the minimum and the octets ahead allow for, one of them is
the last. -/
theorem exhaustive_concludes
    {options : Options} {grammar : Option Grammar} {input : Octets}
    (fits : input.length < UInt64.size) :
    (∀ element offset place,
      place.Holds grammar element →
      offset.toNat ≤ input.length →
      visitCount grammar place element input.length offset ≤ options.limit →
      Concluded
        (matchLengths options grammar element input offset place).outcome ∧
      (options.strategy = .exhaustive →
        Concluded
          (matchElement options grammar element input offset place).outcome)) ∧
    (options.strategy = .exhaustive → ∀ rule place,
      place.Holds grammar rule.element →
      visitCount grammar place rule.element input.length 0 ≤ options.limit →
      Judged (validate options grammar rule input place).outcome) ∧
    (options.strategy = .exhaustive → ∀ present name,
      grammar = some present →
      (∀ rule, present.fetch name = .ok rule →
        visitCount grammar (.rule rule.key) rule.element input.length 0 ≤
          options.limit) →
      Judged (validateNamed options present name input).outcome) ∧
    (∀ element offset place (call : Exhaustive.Call),
      place.Holds grammar element →
      offset.toNat ≤ input.length →
      Relation.ReflTransGen
        (Exhaustive.Call.Makes (setting options grammar input))
        (.first options.limit place element offset) call →
      call.RoundsEnd (setting options grammar input)) := by
  have judged : options.strategy = .exhaustive → ∀ rule place,
      place.Holds grammar rule.element →
      visitCount grammar place rule.element input.length 0 ≤ options.limit →
      Judged (validate options grammar rule input place).outcome := by
    intro exhaustive rule place holds enough
    have inside : (0 : Offset).toNat ≤ input.length := Nat.zero_le _
    rw [outcome_validate_exhaustive exhaustive]
    exact (allEnds_concluded fits holds inside enough).judged rule.name _
  refine ⟨?_, judged, ?_, ?_⟩
  · intro element offset place holds inside enough
    have concluded := allEnds_concluded fits holds inside enough
    refine ⟨?_, ?_⟩
    · rw [outcome_matchLengths]
      exact concluded.map
    · intro exhaustive
      rw [outcome_matchElement_exhaustive exhaustive]
      exact concluded.map
  · intro exhaustive present name isPresent enough
    subst isPresent
    cases found : present.fetch name with
    | ok rule =>
        rw [outcome_validateNamed found]
        exact judged exhaustive rule _ (Place.holds_of_fetch found)
          (enough rule found)
    | error cause =>
        have unresolved := Grammar.isUnresolved_of_fetch found
        rw [validateNamed, found]
        exact Or.inr (Or.inr ⟨cause, unresolved, rfl⟩)
  · intro element offset place call holds inside calls
    have fitsSetting := addressable_setting options grammar fits
    exact (Exhaustive.calls_sound fitsSetting holds
      (inside_setting options grammar inside) calls).roundsEnd fitsSetting

/-- The element `*["x"]`, whose operand may consume nothing, round after
round. -/
def optionalLetters : Element :=
  .repetition (.atLeast 0) (.option (.terminal (.caseless (octets "x"))))

/-- Thirty visits are in reach of `xs = xs "x" / "x"` on two octets: the element
under test and the rule have five nodes each. The repetition `*["x"]` takes
three turns at most, and it reaches every offset. -/
theorem exhaustive_concludes_growingLeft :
    visitCount (some (.ofRules [growingLeft])) .tested growingLeft.element
      (octets "xx").length 0 ≤ 30 ∧
    Concluded (matchLengths { limit := 30 } (some (.ofRules [growingLeft]))
      growingLeft.element (octets "xx") 0).outcome ∧
    ∃ turns result, turns ≤ 3 ∧
      Exhaustive.Turns
        (Exhaustive.visit
          (setting { limit := 30 } (some (.ofRules [growingLeft]))
            (octets "xx"))
          29 [⟨0, 0, .tested⟩]
          ⟨.tested, 1, .option (.terminal (.caseless (octets "x")))⟩)
        (.atLeast 0) 0 .none (.single 0) ⟨.empty, #[]⟩ turns result ∧
      result.1.map Ends.offsets = .ok [0, 1, 2] := by
  have enough :
      visitCount (some (.ofRules [growingLeft])) .tested growingLeft.element
        (octets "xx").length 0 ≤ 30 :=
    Nat.mul_le_mul_right 3 nodeCount_le
  have fits : (octets "xx").length < UInt64.size := by
    decide
  have inside : (0 : Offset).toNat ≤ (octets "xx").length :=
    Nat.zero_le _
  obtain ⟨concludes, _, _, roundsEnd⟩ :=
    @exhaustive_concludes { limit := 30 } (some (.ofRules [growingLeft]))
      (octets "xx") fits
  have fresh : (Exhaustive.Call.first 30 .tested optionalLetters 0).Fresh :=
    ⟨rfl, List.not_mem_nil⟩
  obtain ⟨turns, result, few, taken, same⟩ :=
    roundsEnd optionalLetters 0 .tested _ Place.holds_tested inside .refl
      _ _ 29 rfl fresh rfl
  refine ⟨enough, (concludes growingLeft.element 0 .tested
    Place.holds_tested inside enough).1, turns, result, few, taken, ?_⟩
  rw [← same]
  decide +kernel

end Conformance

end AbnfMatching
