import AbnfMatching.Proofs.Parallels
import AbnfMatching.Proofs.Verdicts

/-!
# Matches in step

Two matches of alike elements go through the same motions in settings that are
related. In exhaustive matching the tables are kept in correspondence: visits at
corresponding places are filed together and with the same end sets, and they are
under way together. What the entry points report agrees in consequence.

The first match may be allowed more levels than the second one, provided that
the second one is excused when it reaches its limit.
-/

namespace AbnfMatching

namespace Likeness

variable {likeness : Likeness}

/-- The first match has as many levels to spare as the second one, or more of
them if the second one is excused for using its levels up. -/
def Levels (likeness : Likeness) (room room' : Nat) : Prop :=
  room = room' ∨ room' ≤ room ∧ ∀ depth, likeness.excused (.tooDeep depth)

theorem Levels.succ
    {room room' : Nat} (levels : likeness.Levels room (room' + 1)) :
    ∃ less, room = less + 1 ∧ likeness.Levels less room' := by
  rcases levels with rfl | ⟨atMost, pardoned⟩
  · exact ⟨room', rfl, Or.inl rfl⟩
  · obtain ⟨less, rfl⟩ :=
      Nat.exists_eq_add_one_of_ne_zero (n := room) (by omega)
    exact ⟨less, rfl, Or.inr ⟨by omega, pardoned⟩⟩

theorem Levels.zero
    {room : Nat} (levels : likeness.Levels room 0) :
    room = 0 ∨ ∀ depth, likeness.excused (.tooDeep depth) :=
  levels.imp_right And.right

/-- Places with the same number in corresponding trees. -/
structure Places (likeness : Likeness) (left right : Place) : Prop where
  trees : likeness.trees left.tree right.tree
  index : left.index = right.index

/-- Visits of corresponding places at the same offset. -/
structure Visits (likeness : Likeness) (left right : Visit) : Prop where
  offset : left.offset = right.offset
  index : left.index = right.index
  trees : likeness.trees left.tree right.tree

theorem biUnique_visits
    (unique : Relator.BiUnique likeness.trees) :
    Relator.BiUnique likeness.Visits := by
  constructor
  · intro visit visit' other first second
    obtain ⟨offset, index, tree⟩ := visit
    obtain ⟨offset', index', tree'⟩ := visit'
    obtain ⟨rfl, rfl, trees⟩ := first
    obtain ⟨rfl, rfl, trees'⟩ := second
    obtain rfl : tree = tree' := unique.1 trees trees'
    rfl
  · intro other visit visit' first second
    obtain ⟨offset, index, tree⟩ := visit
    obtain ⟨offset', index', tree'⟩ := visit'
    obtain ⟨rfl, rfl, trees⟩ := first
    obtain ⟨rfl, rfl, trees'⟩ := second
    obtain rfl : tree = tree' := unique.2 trees trees'
    rfl

theorem Occurrences.visits
    {occurrence occurrence' : Occurrence}
    (alike : likeness.Occurrences occurrence occurrence')
    (offset : Offset) :
    likeness.Visits (occurrence.visitAt offset)
      (occurrence'.visitAt offset) :=
  ⟨rfl, alike.index, alike.trees⟩

/-- The same end sets are filed for corresponding visits. -/
def Memories (likeness : Likeness) (left right : Memory) : Prop :=
  ∀ visit visit', likeness.Visits visit visit' →
    left.table.find? visit = right.table.find? visit'

theorem memories_empty {trace trace' : Trace} :
    likeness.Memories ⟨.empty, trace⟩ ⟨.empty, trace'⟩ := by
  intro visit visit' _
  rw [Table.find?_empty, Table.find?_empty]

theorem Memories.insert
    {left right left' right' : Memory} {visit visit' : Visit} {ends : Ends}
    (memories : likeness.Memories left right)
    (unique : Relator.BiUnique likeness.trees)
    (visits : likeness.Visits visit visit')
    (leftTable : left'.table = left.table.insert visit ends)
    (rightTable : right'.table = right.table.insert visit' ends) :
    likeness.Memories left' right' := by
  intro other other' others
  have together : visit = other ↔ visit' = other' :=
    Relator.rel_eq (biUnique_visits unique) visits others
  rw [leftTable, rightTable, Table.find?_insert, Table.find?_insert,
    memories other other' others]
  simp only [together]

end Likeness

/-! ## Exhaustive matching -/

namespace Exhaustive

section Visits

variable {likeness : Likeness} {left right : Setting}
  {occurrence occurrence' : Occurrence} {offset : Offset}

/-- Fresh evaluations of alike occurrences compare if the visits that they make
compare. -/
theorem evaluate_compares
    {room room' : Nat} {active active' : List Visit}
    {memory memory' : Memory}
    (relates : likeness.Relates left right)
    (alike : likeness.Occurrences occurrence occurrence')
    (below : ∀ part part' start, likeness.Occurrences part part' →
      ∀ memory memory', likeness.Memories memory memory' →
      likeness.Compares likeness.Memories (· = ·)
        (perform (visit left room (occurrence.visitAt offset :: active) part
          start) memory)
        (perform (visit right room' (occurrence'.visitAt offset :: active')
          part' start) memory'))
    (memories : likeness.Memories memory memory') :
    likeness.Compares likeness.Memories (· = ·)
      (perform (evaluate left room active occurrence offset) memory)
      (perform (evaluate right room' active' occurrence' offset)
        memory') := by
  have inquired : likeness.Compares likeness.Memories (· = ·)
      (perform
        ((inquiry left occurrence offset).carryOut fun question =>
          visit left room (occurrence.visitAt offset :: active)
            question.1 question.2) memory)
      (perform
        ((inquiry right occurrence' offset).carryOut fun question =>
          visit right room' (occurrence'.visitAt offset :: active')
            question.1 question.2) memory') := by
    refine (parallel_inquiry relates alike offset).carryOut ?_ memories
    rintro ⟨part, start⟩ ⟨part', _⟩ ⟨parts, rfl⟩
    exact below part part' start parts
  rw [perform_evaluate, perform_evaluate]
  generalize perform
    ((inquiry left occurrence offset).carryOut fun question =>
      visit left room (occurrence.visitAt offset :: active)
        question.1 question.2) memory = performed at inquired ⊢
  generalize perform
    ((inquiry right occurrence' offset).carryOut fun question =>
      visit right room' (occurrence'.visitAt offset :: active')
        question.1 question.2) memory' = performed' at inquired ⊢
  cases inquired with
  | values later same =>
      -- The same ends are filed at corresponding places.
      subst same
      exact .values
        (later.insert relates.trees (alike.visits offset) table_completed
          table_completed)
        rfl
  | faults same => exact .faults same
  | excused pardoned => exact .excused pardoned

/-- Alike occurrences are visited alike if that is so for fresh visits. -/
theorem compares_of_fresh
    {room room' : Nat} {active active' : List Visit}
    {memory memory' : Memory}
    (relates : likeness.Relates left right)
    (underWay : List.Forall₂ likeness.Visits active active')
    (alike : likeness.Occurrences occurrence occurrence')
    (memories : likeness.Memories memory memory')
    (fresh : memory.table.find? (occurrence.visitAt offset) = none →
      memory'.table.find? (occurrence'.visitAt offset) = none →
      occurrence.visitAt offset ∉ active →
      occurrence'.visitAt offset ∉ active' →
      likeness.Compares likeness.Memories (· = ·)
        (perform (visit left room active occurrence offset) memory)
        (perform (visit right room' active' occurrence' offset) memory')) :
    likeness.Compares likeness.Memories (· = ·)
      (perform (visit left room active occurrence offset) memory)
      (perform (visit right room' active' occurrence' offset) memory') := by
  have filedTogether := memories _ _ (alike.visits offset)
  have underWayTogether :
      occurrence.visitAt offset ∈ active ↔
        occurrence'.visitAt offset ∈ active' :=
    List.rel_mem (Likeness.biUnique_visits relates.trees)
      (alike.visits offset) underWay
  cases filed : memory.table.find? (occurrence.visitAt offset) with
  | some known =>
      have filed' := filedTogether.symm.trans filed
      rw [perform_visit_of_filed filed, perform_visit_of_filed filed']
      exact .values memories rfl
  | none =>
      have filed' := filedTogether.symm.trans filed
      by_cases again : occurrence.visitAt offset ∈ active
      · have again' := underWayTogether.mp again
        rw [perform_visit_of_under_way filed again,
          perform_visit_of_under_way filed' again']
        exact .values memories rfl
      · exact fresh filed filed' again (mt underWayTogether.mpr again)

/-- Visits of alike occurrences compare. -/
theorem visit_compares
    {room room' : Nat} {active active' : List Visit}
    {memory memory' : Memory}
    (relates : likeness.Relates left right)
    (levels : likeness.Levels room room')
    (underWay : List.Forall₂ likeness.Visits active active')
    (alike : likeness.Occurrences occurrence occurrence')
    (memories : likeness.Memories memory memory') :
    likeness.Compares likeness.Memories (· = ·)
      (perform (visit left room active occurrence offset) memory)
      (perform (visit right room' active' occurrence' offset) memory') := by
  induction room' generalizing room active active' occurrence occurrence'
    offset memory memory' with
  | zero =>
      refine compares_of_fresh relates underWay alike memories ?_
      intro unfiled unfiled' notUnderWay notUnderWay'
      rw [perform_visit_zero unfiled' notUnderWay']
      rcases levels.zero with rfl | pardoned
      · -- Both have used up the same number of levels.
        rw [perform_visit_zero unfiled notUnderWay, underWay.length_eq]
        exact .faults (relates.faults _ id)
      · exact .excused (pardoned _)
  | succ room' inductionHypothesis =>
      obtain ⟨less, rfl, lessLevels⟩ := levels.succ
      refine compares_of_fresh relates underWay alike memories ?_
      intro unfiled unfiled' notUnderWay notUnderWay'
      rw [perform_visit_succ unfiled notUnderWay,
        perform_visit_succ unfiled' notUnderWay']
      refine evaluate_compares relates alike ?_ memories
      intro part part' start parts later later' laterMemories
      exact inductionHypothesis lessLevels
        (.cons (alike.visits offset) underWay) parts laterMemories

theorem run_agree
    {limit limit' : Nat}
    (relates : likeness.Relates left right)
    (levels : likeness.Levels limit limit')
    (alike : likeness.Occurrences occurrence occurrence') :
    Agree likeness.faults likeness.excused (· = ·)
      (run left limit occurrence offset).1
      (run right limit' occurrence' offset).1 := by
  have compares : likeness.Compares likeness.Memories (· = ·)
      (perform (visit left limit [] occurrence offset) ⟨.empty, #[]⟩)
      (perform (visit right limit' [] occurrence' offset) ⟨.empty, #[]⟩) :=
    visit_compares relates levels .nil alike Likeness.memories_empty
  exact compares.outcomes

end Visits

end Exhaustive

/-! ## Greedy matching -/

namespace Greedy

section Evaluations

variable {likeness : Likeness} {left right : Setting}
  {element element' : Element} {offset : Offset}

/-- Alike elements are matched with outcomes that agree. -/
theorem evaluate_agree
    {room room' depth : Nat} {trace trace' : Trace}
    (relates : likeness.Relates left right)
    (levels : likeness.Levels room room')
    (alike : likeness.elements element element') :
    Agree likeness.faults likeness.excused (· = ·)
      (perform (evaluate left room depth element offset) trace).1
      (perform (evaluate right room' depth element' offset) trace').1 := by
  induction room' generalizing room depth element element' offset trace
    trace' with
  | zero =>
      rcases levels.zero with rfl | pardoned
      · exact .errors (relates.faults _ id)
      · exact .excused (pardoned depth)
  | succ room' inductionHypothesis =>
      obtain ⟨less, rfl, lessLevels⟩ := levels.succ
      rw [outcome_evaluate, outcome_evaluate]
      suffices compares :
          likeness.Compares (fun _ _ => True) (· = ·)
            (perform
              ((inquiry left element offset).carryOut fun question =>
                evaluate left less (depth + 1) question.1 question.2) trace)
            (perform
              ((inquiry right element' offset).carryOut fun question =>
                evaluate right room' (depth + 1) question.1 question.2)
              trace') from compares.outcomes
      refine (parallel_inquiry relates alike offset).carryOut ?_ trivial
      rintro ⟨part, start⟩ ⟨part', _⟩ ⟨parts, rfl⟩ later later' _
      exact Likeness.compares_of_outcomes
        (inductionHypothesis lessLevels parts)

theorem run_agree
    {limit limit' : Nat}
    (relates : likeness.Relates left right)
    (levels : likeness.Levels limit limit')
    (alike : likeness.elements element element') :
    Agree likeness.faults likeness.excused (· = ·)
      (run left limit element offset).1
      (run right limit' element' offset).1 :=
  evaluate_agree relates levels alike

end Evaluations

end Greedy

/-! ## Verdicts -/

/-- Failures of the same kind with alike names and alike faults; what has been
consumed is the same. -/
inductive Failure.Alike
    (names : RuleName → RuleName → Prop) (faults : Fault → Fault → Prop) :
    Failure → Failure → Prop
  | mismatch {name name' : RuleName} :
      names name name' →
      Alike names faults (.rejected (.mismatch name))
        (.rejected (.mismatch name'))
  | incomplete {name name' : RuleName} {consumed total : UInt64} :
      names name name' →
      Alike names faults (.rejected (.incomplete name consumed total))
        (.rejected (.incomplete name' consumed total))
  | fault {cause cause' : Fault} :
      faults cause cause' →
      Alike names faults (.fault cause) (.fault cause')

/-- The failure is a fault of the given sort. -/
def Failure.IsFault (sort : Fault → Prop) : Failure → Prop
  | .rejected _ => False
  | .fault cause => sort cause

theorem Failure.Alike.eq
    {faults : Fault → Fault → Prop} {left right : Failure}
    (alike : Alike (· = ·) faults left right)
    (equal : ∀ cause cause', faults cause cause' → cause = cause') :
    left = right := by
  cases alike with
  | mismatch same => rw [same]
  | incomplete same => rw [same]
  | fault related => rw [equal _ _ related]

theorem Agree.map
    {ε ε' α β : Type} {errors : ε → ε' → Prop} {excused : ε' → Prop}
    {left : Except ε α} {right : Except ε' α}
    (agree : Agree errors excused (· = ·) left right) (change : α → β) :
    Agree errors excused (· = ·) (left.map change) (right.map change) := by
  cases agree with
  | values same => exact .values (congrArg change same)
  | errors alike => exact .errors alike
  | excused pardoned => exact .excused pardoned

section Verdicts

variable {names : RuleName → RuleName → Prop} {faults : Fault → Fault → Prop}
  {excused : Fault → Prop} {name name' : RuleName} {total : UInt64}

/-- What has been found alike is judged alike. -/
theorem Agree.judged
    {α : Type} {left right : Except Fault α}
    {judge judge' : α → Except Failure Unit}
    (agree : Agree faults excused (· = ·) left right)
    (judges : ∀ found, Agree (Failure.Alike names faults)
      (Failure.IsFault excused) (· = ·) (judge found) (judge' found)) :
    Agree (Failure.Alike names faults) (Failure.IsFault excused) (· = ·)
      (left.mapError .fault >>= judge) (right.mapError .fault >>= judge') := by
  cases agree with
  | values same =>
      subst same
      exact judges _
  | errors alike => exact .errors (.fault alike)
  | excused pardoned => exact .excused pardoned

theorem Conformance.judgeEnd_agree
    (blamed : names name name') (found : Option Offset) :
    Agree (Failure.Alike names faults) (Failure.IsFault excused) (· = ·)
      (judgeEnd name total found) (judgeEnd name' total found) := by
  cases found with
  | none => exact .errors (.mismatch blamed)
  | some stop =>
      rw [judgeEnd, judgeEnd]
      split
      · exact .values rfl
      · exact .errors (.incomplete blamed)

theorem Conformance.judgeEnds_agree
    (blamed : names name name') (ends : Ends) :
    Agree (Failure.Alike names faults) (Failure.IsFault excused) (· = ·)
      (judgeEnds name total ends) (judgeEnds name' total ends) := by
  rw [judgeEnds, judgeEnds]
  cases ends.farthest? with
  | none => exact .errors (.mismatch blamed)
  | some farthest =>
      dsimp only
      split
      · exact .values rfl
      · exact .errors (.incomplete blamed)

theorem Agree.decision
    {left right : Except Failure Unit}
    (agree : Agree (Failure.Alike names faults) (Failure.IsFault excused)
      (· = ·) left right) :
    Agree faults excused (· = ·) (Conformance.decision left)
      (Conformance.decision right) := by
  cases agree with
  | values same => exact .values rfl
  | errors alike =>
      cases alike with
      | mismatch _ => exact .values rfl
      | incomplete _ => exact .values rfl
      | fault alike => exact .errors alike
  | @excused _ failure pardoned =>
      cases failure with
      | rejected rejection => exact pardoned.elim
      | fault cause => exact .excused pardoned

end Verdicts

/-! ## Equal outcomes -/

section EqualUnless

variable {tolerated excused : Fault → Prop}

theorem outcomes_equalUnless
    {α : Type} {left right : Except Fault α}
    (agree : Agree (fun cause cause' => cause = cause' ∧ tolerated cause)
      excused (· = ·) left right) :
    EqualUnless excused left right :=
  agree.equalUnless fun _ _ => And.left

theorem verdicts_equalUnless
    {left right : Except Failure Unit}
    (agree : Agree
      (Failure.Alike (· = ·) fun cause cause' =>
        cause = cause' ∧ tolerated cause)
      (Failure.IsFault excused) (· = ·) left right) :
    EqualUnless (Failure.IsFault excused) left right :=
  agree.equalUnless fun _ _ alike => alike.eq fun _ _ => And.left

theorem Failure.not_isFault
    {sort : Fault → Prop} (never : ∀ cause, ¬ sort cause)
    (failure : Failure) :
    ¬ failure.IsFault sort := by
  cases failure with
  | rejected rejection => exact id
  | fault cause => exact never cause

end EqualUnless

/-! ## Entry points -/

namespace Conformance

/-- Two callers search for an element by the same strategy and find alike. -/
structure FindsAgree
    (faults : Fault → Fault → Prop) (excused : Fault → Prop)
    (options options' : Options) (grammar grammar' : Option Grammar)
    (element element' : Element) (place place' : Place)
    (input : Octets) (offset : Offset) : Prop where
  strategy : options.strategy = options'.strategy
  greedy : options.strategy = .greedy →
    Agree faults excused (· = ·)
      (greedyEnd options grammar element input offset).outcome
      (greedyEnd options' grammar' element' input offset).outcome
  exhaustive : options.strategy = .exhaustive →
    Agree faults excused (· = ·)
      (allEnds options grammar element input offset place).outcome
      (allEnds options' grammar' element' input offset place').outcome

namespace FindsAgree

variable {faults : Fault → Fault → Prop} {excused : Fault → Prop}
  {options options' : Options} {grammar grammar' : Option Grammar}
  {element element' : Element} {rule rule' : Rule} {place place' : Place}
  {input : Octets} {offset : Offset}

theorem matchElement_agree
    (finds : FindsAgree faults excused options options' grammar grammar'
      element element' place place' input offset) :
    Agree faults excused (· = ·)
      (matchElement options grammar element input offset place).outcome
      (matchElement options' grammar' element' input offset
        place').outcome := by
  cases strategy : options.strategy with
  | greedy =>
      rw [outcome_matchElement_greedy strategy,
        outcome_matchElement_greedy (finds.strategy ▸ strategy)]
      exact (finds.greedy strategy).map _
  | exhaustive =>
      rw [outcome_matchElement_exhaustive strategy,
        outcome_matchElement_exhaustive (finds.strategy ▸ strategy)]
      exact (finds.exhaustive strategy).map _

theorem validate_agree
    {names : RuleName → RuleName → Prop}
    (finds : FindsAgree faults excused options options' grammar grammar'
      rule.element rule'.element place place' input 0)
    (named : names rule.name rule'.name) :
    Agree (Failure.Alike names faults) (Failure.IsFault excused) (· = ·)
      (validate options grammar rule input place).outcome
      (validate options' grammar' rule' input place').outcome := by
  cases strategy : options.strategy with
  | greedy =>
      rw [outcome_validate_greedy strategy,
        outcome_validate_greedy (finds.strategy ▸ strategy)]
      exact (finds.greedy strategy).judged (judgeEnd_agree named)
  | exhaustive =>
      rw [outcome_validate_exhaustive strategy,
        outcome_validate_exhaustive (finds.strategy ▸ strategy)]
      exact (finds.exhaustive strategy).judged (judgeEnds_agree named)

theorem conforms_agree
    (finds : FindsAgree faults excused options options' grammar grammar'
      rule.element rule'.element place place' input 0) :
    Agree faults excused (· = ·)
      (conforms options grammar rule input place).outcome
      (conforms options' grammar' rule' input place').outcome := by
  rw [outcome_conforms, outcome_conforms]
  have verdicts : Agree (Failure.Alike (fun _ _ => True) faults)
      (Failure.IsFault excused) (· = ·)
      (validate options grammar rule input place).outcome
      (validate options' grammar' rule' input place').outcome :=
    finds.validate_agree trivial
  exact verdicts.decision

end FindsAgree

end Conformance

/-- Two ways of calling an entry point for the same input: with the same
strategy, with limits and in settings that are related. -/
structure Likeness.Calls
    (likeness : Likeness) (options options' : Options)
    (grammar grammar' : Option Grammar) (input : Octets) : Prop where
  strategy : options.strategy = options'.strategy
  levels : likeness.Levels options.limit options'.limit
  relates : likeness.Relates (Conformance.setting options grammar input)
    (Conformance.setting options' grammar' input)

/-- Alike rules, each of which stands in a tree of its own. -/
structure Likeness.Rules
    (likeness : Likeness) (names : RuleName → RuleName → Prop)
    (left right : Rule) : Prop where
  trees : likeness.trees (.rule left.key) (.rule right.key)
  elements : likeness.elements left.element right.element
  named : names left.name right.name

theorem Likeness.Rules.places
    {likeness : Likeness} {names : RuleName → RuleName → Prop}
    {left right : Rule} (rules : likeness.Rules names left right) :
    likeness.Places (.rule left.key) (.rule right.key) :=
  ⟨rules.trees, rfl⟩

namespace Likeness.Calls

open Conformance

variable {likeness : Likeness} {options options' : Options}
  {grammar grammar' : Option Grammar} {input : Octets} {place place' : Place}
  {element element' : Element} {rule rule' : Rule} {offset : Offset}

theorem allEnds_agree
    (calls : likeness.Calls options options' grammar grammar' input)
    (places : likeness.Places place place')
    (elements : likeness.elements element element') :
    Agree likeness.faults likeness.excused (· = ·)
      (allEnds options grammar element input offset place).outcome
      (allEnds options' grammar' element' input offset
        place').outcome :=
  Exhaustive.run_agree calls.relates calls.levels
    ⟨places.trees, places.index, elements⟩

theorem greedyEnd_agree
    (calls : likeness.Calls options options' grammar grammar' input)
    (elements : likeness.elements element element') :
    Agree likeness.faults likeness.excused (· = ·)
      (greedyEnd options grammar element input offset).outcome
      (greedyEnd options' grammar' element' input offset).outcome :=
  Greedy.run_agree calls.relates calls.levels elements

theorem findsAgree
    (calls : likeness.Calls options options' grammar grammar' input)
    (places : likeness.Places place place')
    (elements : likeness.elements element element') :
    FindsAgree likeness.faults likeness.excused options options' grammar
      grammar' element element' place place' input offset :=
  ⟨calls.strategy, fun _ => calls.greedyEnd_agree elements,
    fun _ => calls.allEnds_agree places elements⟩

theorem matchLengths_agree
    (calls : likeness.Calls options options' grammar grammar' input)
    (places : likeness.Places place place')
    (elements : likeness.elements element element') :
    Agree likeness.faults likeness.excused (· = ·)
      (matchLengths options grammar element input offset place).outcome
      (matchLengths options' grammar' element' input offset
        place').outcome := by
  rw [outcome_matchLengths, outcome_matchLengths]
  exact (calls.allEnds_agree places elements).map _

/-- Calls by name agree if the name means alike rules of alike names. -/
theorem validateNamed_agree
    {names : RuleName → RuleName → Prop} {left right : Grammar}
    {name : Octets}
    (calls : likeness.Calls options options' (some left) (some right) input)
    (meaning : Agree likeness.faults likeness.excused (likeness.Rules names)
      (left.fetch name) (right.fetch name)) :
    Agree (Failure.Alike names likeness.faults)
      (Failure.IsFault likeness.excused) (· = ·)
      (validateNamed options left name input).outcome
      (validateNamed options' right name input).outcome := by
  unfold validateNamed
  generalize left.fetch name = fetched at meaning ⊢
  generalize right.fetch name = fetched' at meaning ⊢
  cases meaning with
  | values related =>
      exact (calls.findsAgree related.places related.elements).validate_agree
        related.named
  | errors alike => exact .errors (.fault alike)
  | excused pardoned => exact .excused pardoned

theorem conformsNamed_agree
    {names : RuleName → RuleName → Prop} {left right : Grammar}
    {name : Octets}
    (calls : likeness.Calls options options' (some left) (some right) input)
    (meaning : Agree likeness.faults likeness.excused (likeness.Rules names)
      (left.fetch name) (right.fetch name)) :
    Agree likeness.faults likeness.excused (· = ·)
      (conformsNamed options left name input).outcome
      (conformsNamed options' right name input).outcome := by
  rw [outcome_conformsNamed, outcome_conformsNamed]
  exact (calls.validateNamed_agree meaning).decision

end Likeness.Calls

namespace Conformance

/-- What two callers are told about a rule and about the same input compares at
every entry point: outcomes in the one way, verdicts in the other. -/
structure AnswersCompare
    (outcomes : (α : Type) → Except Fault α → Except Fault α → Prop)
    (verdicts : Except Failure Unit → Except Failure Unit → Prop)
    (options options' : Options) (grammar grammar' : Option Grammar)
    (rule rule' : Rule) (place place' : Place) (input : Octets) : Prop where
  matched : ∀ offset, outcomes (Option UInt64)
    (matchElement options grammar rule.element input offset place).outcome
    (matchElement options' grammar' rule'.element input offset place').outcome
  listed : ∀ offset, outcomes (List UInt64)
    (matchLengths options grammar rule.element input offset place).outcome
    (matchLengths options' grammar' rule'.element input offset place').outcome
  validated : verdicts
    (validate options grammar rule input place).outcome
    (validate options' grammar' rule' input place').outcome
  decided : outcomes Bool
    (conforms options grammar rule input place).outcome
    (conforms options' grammar' rule' input place').outcome

/-- What two callers are told who give the same name compares. -/
structure NamedAnswersCompare
    (outcomes : (α : Type) → Except Fault α → Except Fault α → Prop)
    (verdicts : Except Failure Unit → Except Failure Unit → Prop)
    (options options' : Options) (left right : Grammar)
    (name : Octets) (input : Octets) : Prop where
  validated : verdicts
    (validateNamed options left name input).outcome
    (validateNamed options' right name input).outcome
  decided : outcomes Bool
    (conformsNamed options left name input).outcome
    (conformsNamed options' right name input).outcome

/-- What two callers are told compares at the entry points that go by the
strategy. Listing the lengths is not one of them, since it is always
exhaustive. -/
structure MatchesCompare
    (outcomes : (α : Type) → Except Fault α → Except Fault α → Prop)
    (verdicts : Except Failure Unit → Except Failure Unit → Prop)
    (offsets : Offset → Prop)
    (options options' : Options) (grammar grammar' : Option Grammar)
    (rule rule' : Rule) (place place' : Place) (input : Octets) : Prop where
  matched : ∀ offset, offsets offset → outcomes (Option UInt64)
    (matchElement options grammar rule.element input offset place).outcome
    (matchElement options' grammar' rule'.element input offset place').outcome
  validated : verdicts
    (validate options grammar rule input place).outcome
    (validate options' grammar' rule' input place').outcome
  decided : outcomes Bool
    (conforms options grammar rule input place).outcome
    (conforms options' grammar' rule' input place').outcome

section Compare

variable {likeness : Likeness}
  {outcomes : (α : Type) → Except Fault α → Except Fault α → Prop}
  {verdicts : Except Failure Unit → Except Failure Unit → Prop}
  {options options' : Options} {input : Octets}

/-- Answers that agree compare in every way that follows from agreement. -/
theorem answersCompare_of_calls
    (names : RuleName → RuleName → Prop)
    {grammar grammar' : Option Grammar} {rule rule' : Rule}
    {place place' : Place}
    (calls : likeness.Calls options options' grammar grammar' input)
    (places : likeness.Places place place')
    (elements : likeness.elements rule.element rule'.element)
    (named : names rule.name rule'.name)
    (ofOutcomes : ∀ α (left right : Except Fault α),
      Agree likeness.faults likeness.excused (· = ·) left right →
      outcomes α left right)
    (ofVerdicts : ∀ left right : Except Failure Unit,
      Agree (Failure.Alike names likeness.faults)
        (Failure.IsFault likeness.excused) (· = ·) left right →
      verdicts left right) :
    AnswersCompare outcomes verdicts options options' grammar grammar'
      rule rule' place place' input :=
  ⟨fun _ => ofOutcomes _ _ _
      (calls.findsAgree places elements).matchElement_agree,
    fun _ => ofOutcomes _ _ _ (calls.matchLengths_agree places elements),
    ofVerdicts _ _ ((calls.findsAgree places elements).validate_agree named),
    ofOutcomes _ _ _ (calls.findsAgree places elements).conforms_agree⟩

theorem namedAnswersCompare_of_calls
    (names : RuleName → RuleName → Prop)
    {left right : Grammar} {name : Octets}
    (calls : likeness.Calls options options' (some left) (some right) input)
    (meaning : Agree likeness.faults likeness.excused (likeness.Rules names)
      (left.fetch name) (right.fetch name))
    (ofOutcomes : ∀ α (left right : Except Fault α),
      Agree likeness.faults likeness.excused (· = ·) left right →
      outcomes α left right)
    (ofVerdicts : ∀ left right : Except Failure Unit,
      Agree (Failure.Alike names likeness.faults)
        (Failure.IsFault likeness.excused) (· = ·) left right →
      verdicts left right) :
    NamedAnswersCompare outcomes verdicts options options' left right name
      input :=
  ⟨ofVerdicts _ _ (calls.validateNamed_agree meaning),
    ofOutcomes _ _ _ (calls.conformsNamed_agree meaning)⟩

theorem matchesCompare_of_finds
    {faults : Fault → Fault → Prop} {excused : Fault → Prop}
    {offsets : Offset → Prop} (names : RuleName → RuleName → Prop)
    {grammar grammar' : Option Grammar} {rule rule' : Rule}
    {place place' : Place}
    (finds : ∀ offset, offsets offset →
      FindsAgree faults excused options options' grammar grammar'
        rule.element rule'.element place place' input offset)
    (start : offsets 0)
    (named : names rule.name rule'.name)
    (ofOutcomes : ∀ α (left right : Except Fault α),
      Agree faults excused (· = ·) left right → outcomes α left right)
    (ofVerdicts : ∀ left right : Except Failure Unit,
      Agree (Failure.Alike names faults) (Failure.IsFault excused) (· = ·)
        left right →
      verdicts left right) :
    MatchesCompare outcomes verdicts offsets options options' grammar grammar'
      rule rule' place place' input :=
  ⟨fun offset within => ofOutcomes _ _ _
      (finds offset within).matchElement_agree,
    ofVerdicts _ _ ((finds 0 start).validate_agree named),
    ofOutcomes _ _ _ (finds 0 start).conforms_agree⟩

end Compare

end Conformance

end AbnfMatching
