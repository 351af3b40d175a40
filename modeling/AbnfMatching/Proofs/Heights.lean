import AbnfMatching.Proofs.FixedWidths
import AbnfMatching.Proofs.MissingRules
import AbnfMatching.Proofs.RaisedLimits
import AbnfMatching.Proofs.Stoppages

/-!
# Heights

If the references in reach of an element form no cycle, then the steps down from
an element to a constituent, or from a reference to the rule that it means, come
to an end. The most levels that such steps pass through are the height of the
element. Both ways of matching use up one level for each step down, so a limit
that is no less than the height is never reached, however long the input is and
however many rounds a repetition makes.
-/

namespace AbnfMatching

open Exhaustive (IsTooDeep)
open Relation (ReflTransGen)

/-! ## Acyclic references -/

/-- No rule in reach of the element is in reach of itself. -/
def Acyclic (grammar : Option Grammar) (element : Element) : Prop :=
  ∀ rule, Reaches grammar element rule → ¬ Reaches grammar rule.element rule

/-- The number of rules in reach. -/
noncomputable def reachCount
    (grammar : Option Grammar) (element : Element) : Nat :=
  {rule | Reaches grammar element rule}.ncard

section Acyclic

variable {grammar : Option Grammar} {element part : Element} {name : RuleName}
  {rule : Rule}

theorem Acyclic.constituent
    (acyclic : Acyclic grammar element) (member : part ∈ element.children) :
    Acyclic grammar part := by
  intro rule reaches
  exact acyclic rule <|
    reaches.of_subset (Element.mentions_subset_of_mem_children member)

theorem reaches_meaning (meaning : ruleOf grammar name = some rule) :
    Reaches grammar (.reference name) rule :=
  .directly (List.mem_singleton_self name) meaning

theorem Acyclic.meaning
    (acyclic : Acyclic grammar (.reference name))
    (meaning : ruleOf grammar name = some rule) :
    Acyclic grammar rule.element :=
  fun other reaches => acyclic other ((reaches_meaning meaning).trans reaches)

theorem acyclic_of_plain (plain : element.mentions = []) :
    Acyclic grammar element :=
  fun _ reaches => absurd reaches (not_reaches_of_plain plain)

/-- If every rule refers to rules of a lower rank only, there are no cycles. -/
theorem acyclic_of_rank
    (rank : Rule → Nat)
    (lower : ∀ rule ∈ rulesOf grammar, ∀ name ∈ rule.element.mentions,
      ∀ other ∈ ruleOf grammar name, rank other < rank rule) :
    Acyclic grammar element := by
  have descends : ∀ rule ∈ rulesOf grammar, ∀ other,
      Reaches grammar rule.element other → rank other < rank rule := by
    intro rule member other reaches
    induction reaches with
    | directly mentioned meaning =>
        exact lower rule member _ mentioned _ meaning
    | @through middle other name reaches mentioned meaning furtherUp =>
        obtain ⟨_, found⟩ := reaches.exists_meaning
        have stored := mem_rulesOf_of_ruleOf found
        exact Nat.lt_trans (lower middle stored name mentioned other meaning)
          furtherUp
  intro rule reaches again
  obtain ⟨_, found⟩ := reaches.exists_meaning
  exact Nat.lt_irrefl _ (descends rule (mem_rulesOf_of_ruleOf found) rule again)

theorem finite_reaches :
    {rule | Reaches grammar element rule}.Finite := by
  refine (rulesOf grammar).finite_toSet.subset ?_
  intro rule reaches
  obtain ⟨name, meaning⟩ := Reaches.exists_meaning reaches
  exact mem_rulesOf_of_ruleOf meaning

theorem reachCount_constituent_le (member : part ∈ element.children) :
    reachCount grammar part ≤ reachCount grammar element := by
  refine Set.ncard_le_ncard ?_ finite_reaches
  intro rule reaches
  exact Reaches.of_subset
    (Element.mentions_subset_of_mem_children member) reaches

/-- A rule is not in its own reach, but in that of the references to it. -/
theorem reachCount_meaning_lt
    (acyclic : Acyclic grammar (.reference name))
    (meaning : ruleOf grammar name = some rule) :
    reachCount grammar rule.element < reachCount grammar (.reference name) := by
  have reaches := reaches_meaning meaning
  refine Set.ncard_lt_ncard ?_ finite_reaches
  refine Set.ssubset_iff_exists.mpr ⟨?_, rule, reaches, acyclic rule reaches⟩
  intro other behind
  exact reaches.trans behind

end Acyclic

/-! ## Heights -/

/-- A constituent has fewer nodes and no more rules in reach. -/
theorem descends
    {grammar : Option Grammar} {element part : Element}
    (member : part ∈ element.children) :
    Prod.Lex (· < ·) (· < ·) (reachCount grammar part, part.size)
      (reachCount grammar element, element.size) :=
  Prod.Lex.right' _ (reachCount_constituent_le member)
    (Element.size_lt_of_mem_children member)

def tallest (heights : List Nat) : Nat :=
  heights.foldr max 0

theorem le_tallest
    {heights : List Nat} {height : Nat} (member : height ∈ heights) :
    height ≤ tallest heights :=
  List.le_max_of_le member (Nat.le_refl height)

/-- The levels of an element: one for a terminal, for a group of nothing and for
a reference that means no rule, one more than the rule for any other reference,
and otherwise one more than the tallest constituent. -/
def height
    (grammar : Option Grammar) (element : Element)
    (acyclic : Acyclic grammar element) : Nat :=
  match element, acyclic with
  | .terminal _, _ => 1
  | .reference name, acyclic =>
      match meaning : ruleOf grammar name with
      | none => 1
      | some rule =>
          height grammar rule.element (acyclic.meaning meaning) + 1
  | .sequence parts, acyclic =>
      tallest (parts.attach.map fun part =>
        height grammar part.1 (acyclic.constituent part.2)) + 1
  | .alternation branches, acyclic =>
      tallest (branches.attach.map fun branch =>
        height grammar branch.1 (acyclic.constituent branch.2)) + 1
  | .option body, acyclic =>
      height grammar body
        (acyclic.constituent (List.mem_singleton_self body)) + 1
  | .repetition _ body, acyclic =>
      height grammar body
        (acyclic.constituent (List.mem_singleton_self body)) + 1
termination_by (reachCount grammar element, element.size)
decreasing_by
  · exact .left _ _ (reachCount_meaning_lt acyclic meaning)
  · exact descends part.2
  · exact descends branch.2
  · exact descends (List.mem_singleton_self body)
  · exact descends (List.mem_singleton_self body)

section Height

variable {grammar : Option Grammar} {element part : Element} {name : RuleName}
  {rule : Rule}

theorem height_pos (acyclic : Acyclic grammar element) :
    0 < height grammar element acyclic := by
  cases element with
  | reference name =>
      rw [height]
      split <;> exact Nat.succ_pos _
  | _ =>
      rw [height]
      exact Nat.succ_pos _

theorem height_constituent_lt
    (acyclic : Acyclic grammar element) (member : part ∈ element.children) :
    height grammar part (acyclic.constituent member) <
      height grammar element acyclic := by
  cases element with
  | terminal value => cases member
  | reference name => cases member
  | sequence parts =>
      rw [height]
      apply Nat.lt_succ_of_le
      exact le_tallest <| List.mem_map.mpr
        ⟨⟨part, member⟩, List.mem_attach _ _, rfl⟩
  | alternation branches =>
      rw [height]
      apply Nat.lt_succ_of_le
      exact le_tallest <| List.mem_map.mpr
        ⟨⟨part, member⟩, List.mem_attach _ _, rfl⟩
  | option body =>
      obtain rfl := List.mem_singleton.mp member
      rw [height]
      exact Nat.lt_succ_self _
  | repetition bounds body =>
      obtain rfl := List.mem_singleton.mp member
      rw [height]
      exact Nat.lt_succ_self _

theorem height_meaning
    (acyclic : Acyclic grammar (.reference name))
    (meaning : ruleOf grammar name = some rule) :
    height grammar (.reference name) acyclic =
      height grammar rule.element (acyclic.meaning meaning) + 1 := by
  rw [height]
  split
  · next missing =>
      rw [missing] at meaning
      cases meaning
  · next other found =>
      obtain rfl : other = rule := Option.some.inj (found.symm.trans meaning)
      rfl

end Height

/-- The height of the element is no more than the levels to spare. -/
def FitsIn (grammar : Option Grammar) (room : Nat) (element : Element) : Prop :=
  ∃ acyclic : Acyclic grammar element, height grammar element acyclic ≤ room

section FitsIn

variable {grammar : Option Grammar} {room : Nat} {element : Element}

theorem FitsIn.room_pos (fitsIn : FitsIn grammar room element) : 0 < room := by
  obtain ⟨acyclic, enough⟩ := fitsIn
  exact Nat.lt_of_lt_of_le (height_pos acyclic) enough

/-- Each step down leaves one level less, and has one level less to go. -/
theorem FitsIn.below
    {occurrence part : Occurrence}
    (fitsIn : FitsIn grammar (room + 1) occurrence.element)
    (below : Below grammar occurrence part) :
    FitsIn grammar room part.element := by
  obtain ⟨acyclic, enough⟩ := fitsIn
  cases below with
  | constituent member =>
      have lower := height_constituent_lt acyclic
        (Occurrence.element_mem_children member)
      exact ⟨_, Nat.le_of_lt_succ (Nat.lt_of_lt_of_le lower enough)⟩
  | @meaning name rule shape meaning =>
      obtain ⟨tree, index, element⟩ := occurrence
      subst shape
      rw [height_meaning acyclic meaning] at enough
      exact ⟨acyclic.meaning meaning, Nat.le_of_succ_le_succ enough⟩

end FitsIn

/-! ## Calls -/

theorem Setting.Denies.not_isTooDeep
    {setting : Setting} {offset : Offset} {element : Element} {cause : Fault}
    (denies : setting.Denies offset element cause) :
    ¬ IsTooDeep cause := by
  rintro ⟨limit, rfl⟩
  cases denies with
  | slice failed =>
      unfold terminalEnd at failed
      grind
  | rule failed => exact isUnresolved_of_resolve failed

namespace Greedy

variable {setting : Setting} {limit : Nat} {element : Element}
  {offset : Offset}

theorem Call.fitsIn
    {call : Call}
    (fitsIn : FitsIn setting.grammar limit element)
    (calls : ReflTransGen (Makes setting) (.first limit element offset) call) :
    FitsIn setting.grammar call.room call.element := by
  induction calls with
  | refl =>
      exact fitsIn
  | tail _ makes inductionHypothesis =>
      obtain ⟨part, below, isPart⟩ := makes.below
      rw [makes.room] at inductionHypothesis
      exact isPart ▸ FitsIn.below inductionHypothesis below

theorem run_not_tooDeep
    {cause : Fault}
    (fitsIn : FitsIn setting.grammar limit element)
    (failed : (run setting limit element offset).1 = .error cause) :
    ¬ IsTooDeep cause := by
  have failedCall :
      (Call.first limit element offset).outcome setting = .error cause :=
    failed
  obtain ⟨call, calls, stopped⟩ := Call.outcome_eq_error_iff.mp failedCall
  have levels := (Call.fitsIn fitsIn calls).room_pos
  unfold Call.Stopped at stopped
  split at stopped
  · omega
  · exact stopped.not_isTooDeep

end Greedy

namespace Exhaustive

variable {setting : Setting} {limit : Nat} {place : Place} {element : Element}
  {offset : Offset}

theorem Call.fitsIn
    {call : Call}
    (fitsIn : FitsIn setting.grammar limit element)
    (calls : ReflTransGen (Makes setting)
      (.first limit place element offset) call) :
    FitsIn setting.grammar call.room call.occurrence.element := by
  induction calls with
  | refl =>
      exact fitsIn
  | tail _ makes inductionHypothesis =>
      rw [makes.room] at inductionHypothesis
      exact inductionHypothesis.below makes.below

theorem run_not_tooDeep
    {cause : Fault}
    (fitsIn : FitsIn setting.grammar limit element)
    (failed : (run setting limit (place.occurrence element) offset).1 =
      .error cause) :
    ¬ IsTooDeep cause := by
  have failedCall :
      (Call.first limit place element offset).outcome setting =
        .error cause :=
    failed
  obtain ⟨call, calls, stopped⟩ := Call.outcome_eq_error_iff.mp failedCall
  have levels := (Call.fitsIn fitsIn calls).room_pos
  have reason := stopped.reason
  split at reason
  · omega
  · exact reason.not_isTooDeep

end Exhaustive

/-! ## Entry points -/

namespace Conformance

variable {options : Options} {grammar : Option Grammar} {input : Octets}

theorem stopsOnly_of_fitsIn
    {rule : Rule} {place : Place}
    (fitsIn : FitsIn grammar options.limit rule.element) :
    StopsOnly (fun cause => ¬ IsTooDeep cause) options grammar rule place
      input := by
  have greedy : ∀ offset cause,
      (greedyEnd options grammar rule.element input offset).outcome =
        .error cause → ¬ IsTooDeep cause :=
    fun _ _ failed => Greedy.run_not_tooDeep fitsIn failed
  have exhaustive : ∀ offset cause,
      (allEnds options grammar rule.element input offset place).outcome =
        .error cause → ¬ IsTooDeep cause :=
    fun _ _ failed => Exhaustive.run_not_tooDeep fitsIn failed
  have validated : ∀ cause,
      (validate options grammar rule input place).outcome =
        .error (.fault cause) → ¬ IsTooDeep cause := by
    intro cause failed
    cases strategy : options.strategy with
    | greedy =>
        rw [outcome_validate_greedy strategy,
          judged_eq_fault_iff fun _ _ => judgeEnd_ne_fault] at failed
        exact greedy 0 cause failed
    | exhaustive =>
        rw [outcome_validate_exhaustive strategy,
          judged_eq_fault_iff fun _ _ => judgeEnds_ne_fault] at failed
        exact exhaustive 0 cause failed
  refine ⟨?_, ?_, validated, ?_⟩
  · intro offset cause failed
    cases strategy : options.strategy with
    | greedy =>
        rw [outcome_matchElement_greedy strategy, map_eq_error_iff] at failed
        exact greedy offset cause failed
    | exhaustive =>
        rw [outcome_matchElement_exhaustive strategy, map_eq_error_iff]
          at failed
        exact exhaustive offset cause failed
  · intro offset cause failed
    rw [outcome_matchLengths, map_eq_error_iff] at failed
    exact exhaustive offset cause failed
  · intro cause failed
    rw [outcome_conforms] at failed
    exact validated cause ((decision_decides _).fault cause |>.mp failed)

/-- No call about a rule stops for having reached the limit if the limit is no
less than the height of the right-hand side, whichever strategy is followed. If
the rule does not refer to any other, a height of up to a thousand is allowed by
default. -/
theorem height_suffices :
    (∀ rule place,
      FitsIn grammar options.limit rule.element →
      StopsOnly (fun cause => ¬ IsTooDeep cause) options grammar rule place
        input) ∧
    (∀ present name rule,
      grammar = some present →
      present.fetch name = .ok rule →
      FitsIn grammar options.limit rule.element →
      NamedStopsOnly (fun cause => ¬ IsTooDeep cause) options present name
        input) ∧
    (∀ rule place (plain : rule.element.mentions = []),
      height grammar rule.element (acyclic_of_plain plain) ≤ defaultLimit →
      StopsOnly (fun cause => ¬ IsTooDeep cause)
        { strategy := options.strategy, verbose := options.verbose } grammar
        rule place input) := by
  refine ⟨fun rule place => stopsOnly_of_fitsIn, ?_, ?_⟩
  · rintro present name rule rfl found fitsIn
    exact (stopsOnly_of_fitsIn fitsIn).named found
  · intro rule place plain enough
    exact stopsOnly_of_fitsIn ⟨acyclic_of_plain plain, enough⟩

/-- The rule `inner = ["y"]`. -/
def wrapped : Rule :=
  ⟨.ofText "inner", .option (.terminal (.caseless (octets "y")))⟩

/-- The rule `outer = "x" inner`. -/
def wrapping : Rule :=
  ⟨.ofText "outer",
    .sequence [.terminal (.caseless (octets "x")), .reference wrapped.name]⟩

theorem height_wrapped (acyclic : Acyclic grammar wrapped.element) :
    height grammar wrapped.element acyclic = 2 := by
  unfold wrapped at acyclic ⊢
  dsimp only at acyclic ⊢
  rw [height, height]

theorem height_wrapping
    (meaning : ruleOf grammar wrapped.name = some wrapped)
    (acyclic : Acyclic grammar wrapping.element) :
    height grammar wrapping.element acyclic = 4 := by
  unfold wrapping at acyclic ⊢
  dsimp only at acyclic ⊢
  rw [height]
  simp [List.attach_cons, height_meaning _ meaning, height_wrapped,
    height, tallest]

/-- With four levels, no call about the rule `outer = "x" inner`, where
`inner = ["y"]`, stops for having reached the limit. With three levels one
does. -/
theorem height_suffices_wrapping :
    (validateNamed { limit := 3 } (.ofRules [wrapping, wrapped])
      (octets "outer") (octets "xy")).outcome =
        .error (.fault (.tooDeep 3)) ∧
    (∀ place,
      StopsOnly (fun cause => ¬ IsTooDeep cause) { limit := 4 }
        (some (.ofRules [wrapping, wrapped])) wrapping place (octets "xy")) ∧
    NamedStopsOnly (fun cause => ¬ IsTooDeep cause) { limit := 4 }
      (.ofRules [wrapping, wrapped]) (octets "outer") (octets "xy") ∧
    (∀ place,
      StopsOnly (fun cause => ¬ IsTooDeep cause) {} none wrapped place
        (octets "y")) := by
  have exceeded :
      (validateNamed { limit := 3 } (.ofRules [wrapping, wrapped])
        (octets "outer") (octets "xy")).outcome =
          .error (.fault (.tooDeep 3)) := by
    rfl
  have acyclic :
      Acyclic (some (.ofRules [wrapping, wrapped])) wrapping.element := by
    apply acyclic_of_rank fun rule => rule.element.mentions.length
    decide +kernel
  have fitsIn :
      FitsIn (some (.ofRules [wrapping, wrapped])) 4 wrapping.element :=
    ⟨acyclic, Nat.le_of_eq (height_wrapping rfl acyclic)⟩
  have found :
      (Grammar.ofRules [wrapping, wrapped]).fetch (octets "outer") =
        .ok wrapping := by
    rfl
  have plain : wrapped.element.mentions = [] := by
    rfl
  have low :
      height none wrapped.element (acyclic_of_plain plain) ≤ defaultLimit := by
    rw [height_wrapped]
    decide
  have atFour :=
    @height_suffices { limit := 4 } (some (.ofRules [wrapping, wrapped]))
      (octets "xy")
  have byDefault := @height_suffices {} none (octets "y")
  exact ⟨exceeded, fun place => atFour.1 wrapping place fitsIn,
    atFour.2.1 _ (octets "outer") wrapping rfl found fitsIn,
    fun place => byDefault.2.2 wrapped place plain low⟩

end Conformance

end AbnfMatching
