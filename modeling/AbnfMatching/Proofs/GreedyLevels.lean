import AbnfMatching.Proofs.Copies
import AbnfMatching.Proofs.GreedyRange
import AbnfMatching.Proofs.Nodes
import AbnfMatching.Proofs.Verdicts

/-!
# How many levels greedy matching needs

Greedy matching remembers nothing, so what it comes to for an element at an
offset depends only on the levels it may still use, and more levels can change
the outcome only if the nesting limit was reached. If they do, then they do so
for some match right below as well, with one level less. A match for which one
more level makes a difference therefore hangs from a chain of matches, one for
each of its levels, no two of which are of the same node at the same offset. As
there are only so many nodes in reach, more levels than visits in reach make no
difference: the match then goes on forever.
-/

namespace AbnfMatching

open Exhaustive (IsTooDeep)

/-- From the bound on, an outcome no longer depends on the nesting limit: it
either exceeds every limit, or it is the outcome under every limit that it does
not exceed. -/
structure SettledFrom
    {ε α : Type} (bound : Nat) (exceeded : Nat → ε)
    (outcome : Nat → Except ε α) : Prop where
  endless : ∀ limit depth, bound ≤ limit →
    outcome limit = .error (exceeded depth) →
    ∀ other, outcome other = .error (exceeded other)
  settled : ∀ limit,
    (∀ depth, outcome limit ≠ .error (exceeded depth)) →
    outcome bound = outcome limit

namespace Greedy

/-! ## More levels -/

/-- Whatever matching comes to with the levels on the right, it comes to with
those on the left, unless the nesting limit has been reached. -/
def Extends
    (setting : Setting) (room room' : Nat) (question : Element × Offset) :
    Prop :=
  ∀ depth depth', Simulates (fun _ _ => True) IsTooDeep
    (evaluate setting room depth question.1 question.2)
    (evaluate setting room' depth' question.1 question.2) (· = ·)

/-- Matching reaches the nesting limit. -/
def Overruns
    (setting : Setting) (room : Nat) (question : Element × Offset) : Prop :=
  ∃ depth trace cause, IsTooDeep cause ∧
    (perform (evaluate setting room depth question.1 question.2) trace).1 =
      .error cause

section Levels

variable {setting : Setting} {room room' depth depth' : Nat}
  {element : Element} {offset : Offset} {question : Element × Offset}

/-- If it holds of all matches right below, it holds with one level more. -/
theorem Extends.succ
    (occurrence : Occurrence) (fits : setting.Addressable)
    (inside : offset.toNat ≤ setting.input.size)
    (answers : ∀ question, Asks setting occurrence offset question →
      Extends setting room room' question) :
    Extends setting (room + 1) (room' + 1) (occurrence.element, offset) := by
  intro depth depth'
  have carried : Simulates (fun _ _ => True) IsTooDeep
      ((inquiry setting occurrence.element offset).carryOut fun question =>
        evaluate setting room (depth + 1) question.1 question.2)
      ((inquiry setting occurrence.element offset).carryOut fun question =>
        evaluate setting room' (depth' + 1) question.1 question.2)
      fun found found' => found = found' ∧ EndsInside setting offset found := by
    refine Inquiry.carryOut_simulates (meets_inquiry occurrence fits inside) ?_
    intro question asks
    exact simulates_upholds (answers question asks (depth + 1) (depth' + 1))
      (evaluate_upholds_inside room (depth + 1) fits asks.inside)
      fun _ _ _ => trivial
  rw [evaluate, evaluate, ← carryOut_inquiry, ← carryOut_inquiry]
  refine simulates_bind carried ?_
  intro found found' agreed
  -- The trace entries may differ in depth, but nothing depends on them.
  refine simulates_bind (simulates_note _ _) ?_
  intro _ _ _
  exact simulates_pure agreed.1

/-- More levels do not change an outcome that has been reached. -/
theorem extends_of_le
    (fits : setting.Addressable)
    (inside : offset.toNat ≤ setting.input.size)
    (more : room' ≤ room) :
    Extends setting room room' (element, offset) := by
  induction room' generalizing room element offset with
  | zero =>
      intro depth depth' trace trace' _
      exact .excused ⟨depth', rfl⟩
  | succ room' inductionHypothesis =>
      obtain ⟨room, rfl⟩ := Nat.exists_eq_succ_of_ne_zero
        (by omega : room ≠ 0)
      refine Extends.succ (.root .tested element) fits inside ?_
      rintro ⟨element, start⟩ ⟨⟨part, _, rfl⟩, _, startInside⟩
      exact inductionHypothesis startInside (by omega)

/-- An outcome other than the nesting limit is the same with more levels,
whatever the depth and the trace so far. -/
theorem Extends.outcome_eq
    (extended : Extends setting room room' question) (trace : Trace)
    {trace' : Trace}
    (finished : ∀ cause, IsTooDeep cause →
      (perform (evaluate setting room' depth' question.1 question.2)
        trace').1 ≠ .error cause) :
    (perform (evaluate setting room depth question.1 question.2) trace).1 =
      (perform (evaluate setting room' depth' question.1 question.2)
        trace').1 := by
  have tallies := extended depth depth' trace trace' trivial
  generalize perform (evaluate setting room depth question.1 question.2)
    trace = performed at tallies ⊢
  generalize perform (evaluate setting room' depth' question.1 question.2)
    trace' = performed' at tallies finished ⊢
  cases tallies with
  | values _ agreed => rw [agreed]
  | faults => rfl
  | excused pardoned => exact absurd rfl (finished _ pardoned)

/-- Matching that reaches the limit reaches it at every depth. -/
theorem Extends.overruns
    (extended : Extends setting room room' question)
    (overruns : Overruns setting room question)
    (depth' : Nat) (trace' : Trace) :
    ∃ cause, IsTooDeep cause ∧
      (perform (evaluate setting room' depth' question.1 question.2)
        trace').1 = .error cause := by
  by_contra finished
  push Not at finished
  obtain ⟨depth, trace, cause, tooDeep, failed⟩ := overruns
  rw [extended.outcome_eq trace finished] at failed
  exact finished cause tooDeep failed

/-- Matching that reaches the limit with more levels reaches it with fewer. -/
theorem Overruns.of_le
    (fits : setting.Addressable)
    (inside : offset.toNat ≤ setting.input.size)
    (more : room' ≤ room)
    (overruns : Overruns setting room (element, offset)) :
    Overruns setting room' (element, offset) :=
  ⟨0, #[], (extends_of_le fits inside more).overruns overruns 0 #[]⟩

/-- If more levels do not keep matching from reaching the limit, then they make
no difference at all. -/
theorem extends_of_overruns
    (fits : setting.Addressable)
    (inside : offset.toNat ≤ setting.input.size)
    (more : room ≤ room')
    (persists : Overruns setting room (element, offset) →
      Overruns setting room' (element, offset)) :
    Extends setting room room' (element, offset) := by
  intro depth depth' trace trace' _
  by_cases limited : Overruns setting room' (element, offset)
  · -- Then the right side is excused, at whatever depth it runs.
    obtain ⟨cause, tooDeep, failed⟩ :=
      (extends_of_le fits inside (Nat.le_refl room')).overruns limited
        depth' trace'
    generalize perform (evaluate setting room' depth' _ _) trace' =
      performed' at failed ⊢
    obtain ⟨outcome, later⟩ := performed'
    cases failed
    exact .excused tooDeep
  · have finished : ∀ cause, IsTooDeep cause →
        (perform (evaluate setting room depth element offset)
          trace).1 ≠ .error cause :=
      fun cause tooDeep failed => limited
        (persists ⟨depth, trace, cause, tooDeep, failed⟩)
    exact tallies_of_eq trivial
      ((extends_of_le fits inside more).outcome_eq trace' finished).symm

end Levels

/-! ## Decisive levels -/

/-- Matching reaches the nesting limit with these levels, but not with one
more. -/
structure Decisive
    (setting : Setting) (room : Nat) (question : Element × Offset) : Prop where
  overruns : Overruns setting room question
  finishes : ¬ Overruns setting (room + 1) question

section Decisive

variable {setting : Setting} {room room' : Nat} {element : Element}
  {occurrence : Occurrence} {offset : Offset}

theorem Decisive.room_le
    (fits : setting.Addressable)
    (inside : offset.toNat ≤ setting.input.size)
    (decisive : Decisive setting room (element, offset))
    (overruns : Overruns setting room' (element, offset)) :
    room' ≤ room := by
  by_contra more
  exact decisive.finishes (overruns.of_le fits inside (by omega))

/-- If one more level makes a difference, then it does for some match right
below. -/
theorem Decisive.exists_asked
    (fits : setting.Addressable)
    (inside : offset.toNat ≤ setting.input.size)
    (decisive : Decisive setting (room + 1) (occurrence.element, offset)) :
    ∃ part start, Below setting.grammar occurrence part ∧
      offset ≤ start ∧ start.toNat ≤ setting.input.size ∧
      Decisive setting room (part.element, start) := by
  -- If every match below that reaches the limit still did so with one level
  -- more, the extra level would make no difference here either.
  by_contra none
  have extended :
      Extends setting (room + 1) (room + 2) (occurrence.element, offset) := by
    refine Extends.succ occurrence fits inside ?_
    rintro ⟨element, start⟩ ⟨⟨part, below, rfl⟩, ordered, startInside⟩
    refine extends_of_overruns fits startInside (Nat.le_succ room) ?_
    intro overruns
    by_contra finishes
    exact none
      ⟨part, start, below, ordered, startInside, overruns, finishes⟩
  exact decisive.finishes
    ⟨0, #[], extended.overruns decisive.overruns 0 #[]⟩

/-- The visit is one at which one more level than some number up to `room` makes
a difference. -/
def DecisiveUpTo
    (setting : Setting) (subject : Element) (room : Nat) (visit : Visit) :
    Prop :=
  ∃ part : Occurrence, ∃ start level,
    visit = part.visitAt start ∧ level ≤ room ∧
      part.Placed setting.grammar subject ∧
      start.toNat ≤ setting.input.size ∧
      Decisive setting level (part.element, start)

/-- A visit has one decisive number of levels only. -/
theorem Decisive.not_decisiveUpTo
    {subject : Element}
    (fits : setting.Addressable)
    (placed : occurrence.Placed setting.grammar subject)
    (decisive : Decisive setting (room + 1) (occurrence.element, offset)) :
    ¬ DecisiveUpTo setting subject room (occurrence.visitAt offset) := by
  rintro ⟨part, start, level, same, low, partPlaced, inside, lower⟩
  obtain ⟨rfl, rfl⟩ := placed.unique_of_visitAt partPlaced same
  have levels := lower.room_le fits inside decisive.overruns
  omega

/-- If a number of levels is decisive, then each smaller one is for some visit
in reach, and these visits are different ones. -/
theorem Decisive.exists_visits
    {place : Place} {element : Element} {origin : Offset}
    (fits : setting.Addressable)
    (inReach : occurrence.InReach setting.grammar place element)
    (ordered : origin ≤ offset)
    (inside : offset.toNat ≤ setting.input.size)
    (decisive : Decisive setting room (occurrence.element, offset)) :
    ∃ visits : List Visit, visits.length = room + 1 ∧ visits.Nodup ∧
      ∀ visit ∈ visits, visit ∈ visitsInReach setting place element origin ∧
        DecisiveUpTo setting element room visit := by
  induction room generalizing occurrence offset with
  | zero =>
      refine ⟨[occurrence.visitAt offset], rfl, List.nodup_singleton _, ?_⟩
      intro visit member
      cases List.mem_singleton.mp member
      exact ⟨inReach.visit_mem ordered inside, occurrence, offset, 0,
        rfl, Nat.le_refl 0, inReach.placed, inside, decisive⟩
  | succ room inductionHypothesis =>
      obtain ⟨part, start, below, after, startInside, lower⟩ :=
        decisive.exists_asked fits inside
      obtain ⟨visits, length, nodup, all⟩ :=
        inductionHypothesis (inReach.below below)
          (UInt64.le_trans ordered after) startInside lower
      have fresh : occurrence.visitAt offset ∉ visits :=
        fun member =>
          decisive.not_decisiveUpTo fits inReach.placed (all _ member).2
      refine ⟨occurrence.visitAt offset :: visits,
        by rw [List.length_cons, length],
        List.nodup_cons.mpr ⟨fresh, nodup⟩, ?_⟩
      intro visit member
      rcases List.mem_cons.mp member with rfl | later
      · exact ⟨inReach.visit_mem ordered inside, occurrence, offset,
          room + 1, rfl, Nat.le_refl _, inReach.placed, inside, decisive⟩
      · obtain ⟨visitInReach, found, begin, level, same, low, rest⟩ :=
          all visit later
        exact ⟨visitInReach, found, begin, level, same, by omega, rest⟩

end Decisive

/-! ## Enough levels -/

section Enough

variable {setting : Setting} {place : Place} {element : Element}
  {origin : Offset} {room : Nat}

/-- A decisive number of levels is less than the number of visits in reach. -/
theorem Decisive.room_lt
    (fits : setting.Addressable)
    (holds : place.Holds setting.grammar element)
    (inside : origin.toNat ≤ setting.input.size)
    (decisive : Decisive setting room (element, origin)) :
    room <
      visitCount setting.grammar place element setting.input.size origin := by
  obtain ⟨visits, length, nodup, all⟩ :=
    Decisive.exists_visits fits (Occurrence.inReach_start holds)
      (UInt64.le_refl origin) inside decisive
  have bounded := length_le_of_nodup nodup fun visit member =>
    (all visit member).1
  omega

/-- With as many levels as there are visits in reach, matching that reaches the
limit reaches every limit. -/
theorem overruns_of_enough
    (fits : setting.Addressable)
    (holds : place.Holds setting.grammar element)
    (inside : origin.toNat ≤ setting.input.size)
    (enough :
      visitCount setting.grammar place element setting.input.size origin ≤
        room)
    (overruns : Overruns setting room (element, origin)) (room' : Nat) :
    Overruns setting room' (element, origin) := by
  have onward : ∀ more,
      Overruns setting (room + more) (element, origin) := by
    intro more
    induction more with
    | zero =>
        exact overruns
    | succ more inductionHypothesis =>
        by_contra finishes
        have decisive :
            Decisive setting (room + more) (element, origin) :=
          ⟨inductionHypothesis, finishes⟩
        have few := decisive.room_lt fits holds inside
        omega
  exact (onward room').of_le fits inside (Nat.le_add_left room' room)

/-- A limit that is reached is the one that is reported. -/
theorem run_of_overruns
    (fits : setting.Addressable)
    (inside : origin.toNat ≤ setting.input.size)
    (overruns : Overruns setting room (element, origin)) :
    (run setting room element origin).1 = .error (.tooDeep room) := by
  obtain ⟨cause, ⟨limit, rfl⟩, failed⟩ :=
    (extends_of_le fits inside (Nat.le_refl room)).overruns overruns 0 #[]
  rcases fault_of_evaluate fits inside failed with reported | unresolved
  · rw [reported, Nat.zero_add] at failed
    exact failed
  · exact unresolved.elim

/-- Whatever levels matching is given beyond the number of visits in reach, the
outcome is the same. -/
theorem settledFrom_run
    (fits : setting.Addressable)
    (holds : place.Holds setting.grammar element)
    (inside : origin.toNat ≤ setting.input.size) :
    SettledFrom
      (visitCount setting.grammar place element setting.input.size origin)
      Fault.tooDeep fun limit => (run setting limit element origin).1 := by
  refine ⟨?_, ?_⟩
  · intro limit depth enough failed other
    exact run_of_overruns fits inside
      (overruns_of_enough fits holds inside enough
        ⟨0, #[], _, ⟨depth, rfl⟩, failed⟩ other)
  · intro limit finished
    have extended : Extends setting
        (visitCount setting.grammar place element setting.input.size origin)
        limit (element, origin) := by
      rcases Nat.le_total limit (visitCount setting.grammar place element
        setting.input.size origin) with more | fewer
      · exact extends_of_le fits inside more
      · exact extends_of_overruns fits inside fewer fun overruns =>
          overruns_of_enough fits holds inside (Nat.le_refl _) overruns limit
    refine extended.outcome_eq #[] ?_
    rintro _ ⟨depth, rfl⟩ failed
    exact finished depth failed

end Enough

end Greedy

/-! ## Entry points -/

section SettledFrom

variable {ε ε' α β : Type} {bound : Nat} {exceeded : Nat → ε}
  {exceeded' : Nat → ε'} {outcome : Nat → Except ε α}

/-- What is made of an outcome is settled if the outcome is, provided that it
exceeds the limit only where the outcome does. -/
theorem SettledFrom.change
    (settledFrom : SettledFrom bound exceeded outcome)
    (change : Except ε α → Except ε' β)
    (keeps : ∀ limit, change (.error (exceeded limit)) =
      .error (exceeded' limit))
    (reflects : ∀ result limit, change result = .error (exceeded' limit) →
      result = .error (exceeded limit)) :
    SettledFrom bound exceeded' fun limit => change (outcome limit) := by
  refine ⟨?_, ?_⟩
  · intro limit depth enough failed other
    rw [settledFrom.endless limit depth enough (reflects _ _ failed) other,
      keeps]
  · intro limit finished
    refine congrArg change (settledFrom.settled limit ?_)
    intro depth failed
    exact finished depth (by rw [failed, keeps])

end SettledFrom

namespace Conformance

/-- Once the nesting limit is at least the number of visits in reach, raising it
does not change what greedy matching comes to: a match that still exceeds it
goes on forever, and any other outcome that some limit allows is the one under
this limit already. -/
theorem greedy_settles
    {options : Options} {grammar : Option Grammar} {input : Octets}
    (fits : input.length < UInt64.size)
    (greedy : options.strategy = .greedy) :
    (∀ element offset place,
      place.Holds grammar element →
      offset.toNat ≤ input.length →
      SettledFrom (visitCount grammar place element input.length offset)
        Fault.tooDeep fun limit =>
          (matchElement { options with limit := limit } grammar element input
            offset place).outcome) ∧
    (∀ rule place,
      place.Holds grammar rule.element →
      SettledFrom (visitCount grammar place rule.element input.length 0)
        (fun limit => Failure.fault (.tooDeep limit)) fun limit =>
          (validate { options with limit := limit } grammar rule input
            place).outcome) ∧
    (∀ present name rule,
      grammar = some present →
      present.fetch name = .ok rule →
      SettledFrom
        (visitCount grammar (.rule rule.key) rule.element input.length 0)
        (fun limit => Failure.fault (.tooDeep limit)) fun limit =>
          (validateNamed { options with limit := limit } present name
            input).outcome) := by
  have settled : ∀ element offset place,
      place.Holds grammar element →
      offset.toNat ≤ input.length →
      SettledFrom (visitCount grammar place element input.length offset)
        Fault.tooDeep fun limit =>
          (greedyEnd { options with limit := limit } grammar element input
            offset).outcome := by
    intro element offset place holds inside
    have settledFrom := Greedy.settledFrom_run
      (addressable_setting options grammar fits) holds
      (inside_setting options grammar inside)
    rw [size_setting] at settledFrom
    exact settledFrom
  have judged : ∀ rule place,
      place.Holds grammar rule.element →
      SettledFrom (visitCount grammar place rule.element input.length 0)
        (fun limit => Failure.fault (.tooDeep limit)) fun limit =>
          (validate { options with limit := limit } grammar rule input
            place).outcome := by
    intro rule place holds
    have inside : (0 : Offset).toNat ≤ input.length := Nat.zero_le _
    simp only [outcome_validate_greedy, greedy]
    refine (settled rule.element 0 place holds inside).change
      (fun outcome => outcome.mapError .fault >>=
        judgeEnd rule.name (UInt64.ofNat input.length)) (fun _ => rfl) ?_
    intro result limit failed
    cases result with
    | ok found => exact absurd failed judgeEnd_ne_fault
    | error cause =>
        cases failed
        rfl
  refine ⟨?_, judged, ?_⟩
  · intro element offset place holds inside
    simp only [outcome_matchElement_greedy, greedy]
    refine (settled element offset place holds inside).change
      (fun outcome => outcome.map fun stop => stop.map (· - offset))
      (fun _ => rfl) ?_
    intro result limit failed
    cases result with
    | ok found => cases failed
    | error cause =>
        cases failed
        rfl
  · intro present name rule isPresent found
    subst isPresent
    simp only [outcome_validateNamed found]
    exact judged rule _ (Place.holds_of_fetch found)

/-- Greedy matching of `xs = xs "x" / "x"` never ends: it exceeds the limit of
thirty levels, the number of visits in reach on two octets, and hence every
limit. -/
theorem greedy_settles_growingLeft :
    (matchElement { strategy := .greedy, limit := 30 }
      (some (.ofRules [growingLeft])) growingLeft.element (octets "xx")
      0).outcome = .error (.tooDeep 30) ∧
    (matchElement { strategy := .greedy, limit := 1000000 }
      (some (.ofRules [growingLeft])) growingLeft.element (octets "xx")
      0).outcome = .error (.tooDeep 1000000) := by
  have few :
      visitCount (some (.ofRules [growingLeft])) .tested growingLeft.element
        (octets "xx").length 0 ≤ 30 :=
    Nat.mul_le_mul_right 3 nodeCount_le
  have failed :
      (matchElement { strategy := .greedy, limit := 30 }
        (some (.ofRules [growingLeft])) growingLeft.element (octets "xx")
        0).outcome = .error (.tooDeep 30) := by
    decide +kernel
  have fits : (octets "xx").length < UInt64.size := by
    decide
  have inside : (0 : Offset).toNat ≤ (octets "xx").length :=
    Nat.zero_le _
  have settles :=
    @greedy_settles { strategy := .greedy } (some (.ofRules [growingLeft]))
      (octets "xx") fits rfl
  have settledFrom :=
    settles.1 growingLeft.element 0 .tested Place.holds_tested inside
  exact ⟨failed, settledFrom.endless 30 30 few failed 1000000⟩

end Conformance

end AbnfMatching
