import AbnfMatching.Element.Folding
import AbnfMatching.Proofs.Additions
import AbnfMatching.Proofs.Exactness
import AbnfMatching.Proofs.MatchesInStep
import AbnfMatching.Proofs.Nodes
import AbnfMatching.Proofs.RulesAsValues

/-!
# Reachable rules decide

A match looks up no names but those that references lead to. Two grammars that
agree on these names, up to the letter case of names in the rules, are therefore
told apart by no match of an element that stands at the same place both times.
The trees in which the matches move are the same then, since they are named by
keys. In particular a rule that no reference leads to may be added or replaced,
and a match that gets along without a grammar is the same with any.

An element may also be the right-hand side of a rule in one grammar and be given
to the other one from outside. The places that exhaustive matching meets again
are then not the same both times, which makes a difference for left-recursive
rules.
-/

namespace AbnfMatching

open Exhaustive (IsTooDeep)

/-! ## Up to letter case -/

/-- The fault with its name in small letters. -/
def Fault.folded : Fault → Fault
  | .noGrammar reference => .noGrammar (foldCase reference)
  | .undefinedRule name => .undefinedRule (foldCase name)
  | .tooDeep limit => .tooDeep limit
  | .outOfRange => .outOfRange

def Rejection.folded : Rejection → Rejection
  | .mismatch rule => .mismatch rule.folded
  | .incomplete rule consumed total =>
      .incomplete rule.folded consumed total

/-- The failure with its name in small letters. What it says apart from the name
is the same. -/
def Failure.folded : Failure → Failure
  | .rejected rejection => .rejected rejection.folded
  | .fault cause => .fault cause.folded

/-- Elements that are equal up to the letter case of names are of the same
kind. -/
theorem sameKind_of_folded_eq
    {left right : Element} (same : left.folded = right.folded) :
    SameKind (fun part part' => part.folded = part'.folded) left right := by
  have related : ∀ {parts parts' : List Element},
      Element.foldedOfAll parts = Element.foldedOfAll parts' →
      List.Forall₂ (fun part part' => part.folded = part'.folded)
        parts parts' := by
    intro parts parts' equal
    rw [Element.foldedOfAll_eq_map, Element.foldedOfAll_eq_map,
      ← List.forall₂_eq_eq_eq, List.forall₂_map_left_iff,
      List.forall₂_map_right_iff] at equal
    exact equal
  cases left <;> cases right <;>
    simp only [Element.folded, reduceCtorEq, Element.terminal.injEq,
      Element.sequence.injEq, Element.alternation.injEq,
      Element.option.injEq, Element.repetition.injEq] at same
  case terminal.terminal => exact same ▸ .terminal _
  case reference.reference => exact .reference _ _
  case sequence.sequence => exact .sequence (related same)
  case alternation.alternation => exact .alternation (related same)
  case option.option => exact .option same
  case repetition.repetition => exact same.1 ▸ .repetition _ same.2

/-! ## Names in reach -/

/-- References lead from the element to the name. -/
def NameInReach
    (grammar : Grammar) (element : Element) (name : RuleName) : Prop :=
  name ∈ element.mentions ∨
    ∃ rule, Reaches (some grammar) element rule ∧
      name ∈ rule.element.mentions

/-- References lead from the rule of one name to another name. -/
def NameBehind
    (grammar : Grammar) (start : Octets) (name : RuleName) : Prop :=
  ∃ rule, grammar.lookup? start = some rule ∧
    NameInReach grammar rule.element name

/-- No reference leads out of the set of names. -/
def Grammar.ClosedOn (grammar : Grammar) (within : RuleName → Prop) : Prop :=
  ∀ name rule, within name → grammar.lookup? name.spelling = some rule →
    ∀ next ∈ rule.element.mentions, within next

section NameInReach

variable {grammar : Grammar}

theorem closedOn_nameInReach (element : Element) :
    grammar.ClosedOn (NameInReach grammar element) := by
  intro name rule inReach meaning next mentioned
  rcases inReach with direct | ⟨middle, reaches, inMiddle⟩
  · exact Or.inr ⟨rule, .directly direct meaning, mentioned⟩
  · exact Or.inr ⟨rule, .through reaches inMiddle meaning, mentioned⟩

theorem closedOn_nameBehind (start : Octets) :
    grammar.ClosedOn (NameBehind grammar start) := by
  intro name rule behind meaning next mentioned
  obtain ⟨first, found, inReach⟩ := behind
  exact ⟨first, found,
    closedOn_nameInReach first.element name rule inReach meaning next
      mentioned⟩

end NameInReach

/-- Both grammars lack a rule of the name, or both have one, and the right-hand
sides are equal up to the letter case of names. -/
def Grammar.AgreeOn (left right : Grammar) (name : Octets) : Prop :=
  (left.lookup? name).map (fun rule => rule.element.folded) =
    (right.lookup? name).map fun rule => rule.element.folded

/-- The grammars agree on all names that references lead to from the element. -/
def Grammar.AgreeFrom (left right : Grammar) (element : Element) : Prop :=
  ∀ name, NameInReach left element name → left.AgreeOn right name.spelling

/-- Spellings of a name that differ in letter case only mean rules of the same
key, if anything, where the grammars agree. -/
theorem Grammar.fetch_agree
    {left right : Grammar} {name name' : Octets}
    (agree : left.AgreeOn right name)
    (same : foldCase name = foldCase name') :
    Agree (fun cause cause' => cause.folded = cause'.folded) (fun _ => False)
      (fun rule rule' => left.lookup? name = some rule ∧
        rule.key = rule'.key ∧
        rule.element.folded = rule'.element.folded)
      (left.fetch name) (right.fetch name') := by
  have sameLookup : right.lookup? name' = right.lookup? name := by
    rw [lookup?, lookup?, same]
  unfold AgreeOn at agree
  rw [fetch, fetch, sameLookup]
  cases leftFound : left.lookup? name with
  | none =>
      cases rightFound : right.lookup? name with
      | none =>
          exact .errors (congrArg Fault.undefinedRule same)
      | some rule' =>
          rw [leftFound, rightFound] at agree
          cases agree
  | some rule =>
      cases rightFound : right.lookup? name with
      | none =>
          rw [leftFound, rightFound] at agree
          cases agree
      | some rule' =>
          rw [leftFound, rightFound] at agree
          have sameKey : rule.key = rule'.key :=
            (key_of_find? leftFound).trans (key_of_find? rightFound).symm
          exact .values ⟨rfl, sameKey, Option.some.inj agree⟩

/-- Two matches in grammars that agree on a set of names. -/
def foldedMatch (within : RuleName → Prop) : Likeness where
  trees := (· = ·)
  elements left right := left.folded = right.folded ∧
    ∀ name ∈ left.mentions, within name
  faults left right := left.folded = right.folded
  excused _ := False

theorem foldedMatch_relates
    {left right : Grammar} {within : RuleName → Prop} {input : Array UInt8}
    {verbose : Bool}
    (closed : left.ClosedOn within)
    (agree : ∀ name, within name → left.AgreeOn right name.spelling) :
    (foldedMatch within).Relates ⟨input, some left, verbose⟩
      ⟨input, some right, verbose⟩ where
  input := rfl
  trees := biUnique_eq
  kinds := by
    rintro element element' ⟨same, known⟩
    refine (sameKind_of_folded_eq same).restrict ?_
    intro part member name mentioned
    exact known name
      (Element.mentions_subset_of_mem_children member mentioned)
  sizes := by
    rintro element element' ⟨same, _⟩
    rw [← element.size_folded, same, element'.size_folded]
  meaning := by
    rintro name name' ⟨same, known⟩
    have isWithin := known name (List.mem_singleton_self name)
    have sameKey : name.key = name'.key := by
      simpa [Element.folded, RuleName.folded_eq_iff] using same
    refine (Grammar.fetch_agree (agree name isWithin) sameKey).imp ?_
    rintro rule rule' ⟨meaning, keys, elements⟩
    exact ⟨congrArg Tree.rule keys, elements,
      closed name rule isWithin meaning⟩
  faults := fun _ _ => rfl

/-! ## Rules out of reach -/

theorem Grammar.fetch_add_of_ne
    {grammar : Grammar} {rule : Rule} {name : Octets}
    (different : foldCase name ≠ rule.key) :
    (grammar.add rule).fetch name = grammar.fetch name := by
  rw [fetch, fetch, lookup?, lookup?, find?_add, if_neg (Ne.symm different)]

/-- Two matches in grammars that have the same rules for a set of names. -/
def extendedMatch (within : RuleName → Prop) : Likeness :=
  .restricted (· = ·) (fun element => ∀ name ∈ element.mentions, within name)
    (fun _ => True) fun _ => False

theorem extendedMatch_relates
    {grammar : Grammar} {added : Rule} {within : RuleName → Prop}
    {input : Array UInt8} {verbose : Bool}
    (closed : grammar.ClosedOn within)
    (outOfReach : ∀ name, within name → name.key ≠ added.key) :
    (extendedMatch within).Relates ⟨input, some grammar, verbose⟩
      ⟨input, some (grammar.add added), verbose⟩ := by
  refine Likeness.relates_restricted rfl biUnique_eq ?_ ?_ ?_
  · intro element part known member name mentioned
    exact known name
      (Element.mentions_subset_of_mem_children member mentioned)
  · intro name known
    have isWithin := known name (List.mem_singleton_self name)
    have sameRule :
        Setting.resolve ⟨input, some (grammar.add added), verbose⟩ name =
          Setting.resolve ⟨input, some grammar, verbose⟩ name :=
      Grammar.fetch_add_of_ne (outOfReach name isWithin)
    rw [sameRule]
    refine agree_self ?_ fun _ _ => ⟨rfl, trivial⟩
    intro rule resolved
    exact ⟨rfl, rfl, closed name rule isWithin (ruleOf_of_resolve resolved)⟩
  · exact fun _ _ => trivial

/-! ## Matches without a grammar -/

def Fault.IsNoGrammar (cause : Fault) : Prop :=
  ∃ reference, cause = .noGrammar reference

/-- A match with some grammar compared with one without, which is excused for
asking for a grammar. Neither leaves the tree in which it begins. -/
def plainMatch (tree tree' : Tree) : Likeness :=
  .restricted (fun left right => left = tree ∧ right = tree') (fun _ => True)
    (fun _ => True) Fault.IsNoGrammar

theorem plainMatch_relates
    {tree tree' : Tree} {grammar : Option Grammar} {input : Array UInt8}
    {verbose : Bool} :
    (plainMatch tree tree').Relates ⟨input, grammar, verbose⟩
      ⟨input, none, verbose⟩ := by
  refine Likeness.relates_restricted rfl ⟨?_, ?_⟩ ?_ ?_ ?_
  · rintro left right _ ⟨rfl, _⟩ ⟨rfl, _⟩
    rfl
  · rintro _ left right ⟨_, rfl⟩ ⟨_, rfl⟩
    rfl
  · exact fun _ _ _ _ => trivial
  · intro name _
    exact .excused ⟨name.spelling, rfl⟩
  · exact fun _ _ => trivial

namespace Conformance

section Answers

variable {options : Options} {input : Octets}

theorem mapError_eq_of_agree
    {ε α : Type} {errors : ε → ε → Prop} {excused : ε → Prop} {view : ε → ε}
    {left right : Except ε α}
    (agree : Agree errors excused (· = ·) left right)
    (strict : ∀ error, right = .error error → ¬ excused error)
    (views : ∀ error error', errors error error' →
      view error = view error') :
    left.mapError view = right.mapError view := by
  cases agree with
  | values same => rw [same]
  | errors alike => exact congrArg Except.error (views _ _ alike)
  | excused pardoned => exact absurd pardoned (strict _ rfl)

/-- Outcomes that are equal up to the letter case of names. -/
def EqualFolded (α : Type) (left right : Except Fault α) : Prop :=
  left.mapError Fault.folded = right.mapError Fault.folded

def VerdictsEqualFolded (left right : Except Failure Unit) : Prop :=
  left.mapError Failure.folded = right.mapError Failure.folded

/-- Outcomes that are equal up to the letter case of names, unless the second
match has become too deep. -/
def EqualFoldedUnlessTooDeep
    (α : Type) (left right : Except Fault α) : Prop :=
  (∀ cause, right = .error cause → ¬ IsTooDeep cause) →
    EqualFolded α left right

def VerdictsEqualFoldedUnlessTooDeep
    (left right : Except Failure Unit) : Prop :=
  (∀ failure, right = .error failure → ¬ failure.IsFault IsTooDeep) →
    VerdictsEqualFolded left right

theorem folded_eq_of_alike
    {left right : Failure}
    (alike : Failure.Alike (fun name name' => name.folded = name'.folded)
      (fun cause cause' => cause.folded = cause'.folded) left right) :
    left.folded = right.folded := by
  cases alike with
  | mismatch same => simp [Failure.folded, Rejection.folded, same]
  | incomplete same => simp [Failure.folded, Rejection.folded, same]
  | fault same => exact congrArg Failure.fault same

theorem equalFolded_of_agree
    {α : Type} {left right : Except Fault α}
    (agreed : Agree (fun cause cause' => cause.folded = cause'.folded)
      (fun _ => False) (· = ·) left right) :
    EqualFolded α left right :=
  mapError_eq_of_agree agreed (fun _ _ => id) fun _ _ => id

theorem verdictsEqualFolded_of_agree
    {left right : Except Failure Unit}
    (agreed : Agree
      (Failure.Alike (fun name name' => name.folded = name'.folded)
        fun cause cause' => cause.folded = cause'.folded)
      (Failure.IsFault fun _ => False) (· = ·) left right) :
    VerdictsEqualFolded left right :=
  mapError_eq_of_agree agreed
    (fun failure _ => Failure.not_isFault (fun _ => id) failure)
    fun _ _ => folded_eq_of_alike

section Agreement

variable {left right : Grammar} {rule : Rule}

theorem foldedMatch_calls
    {element : Element} (agree : left.AgreeFrom right element) :
    (foldedMatch (NameInReach left element)).Calls options options
      (some left) (some right) input :=
  ⟨rfl, Or.inl rfl, foldedMatch_relates (closedOn_nameInReach _) agree⟩

theorem answersCompare_of_agreement
    {place : Place} (agree : left.AgreeFrom right rule.element) :
    AnswersCompare EqualFolded VerdictsEqualFolded options options
      (some left) (some right) rule rule place place input :=
  answersCompare_of_calls (fun name name' => name.folded = name'.folded)
    (foldedMatch_calls agree) ⟨rfl, rfl⟩ ⟨rfl, fun _ => Or.inl⟩ rfl
    (fun _ _ _ => equalFolded_of_agree)
    fun _ _ => verdictsEqualFolded_of_agree

/-- Greedy matching does not depend on the place where an element stands. -/
theorem matchesCompare_of_greedy
    {place place' : Place} (agree : left.AgreeFrom right rule.element)
    (greedy : options.strategy = .greedy) :
    MatchesCompare EqualFolded VerdictsEqualFolded (fun _ => True)
      options options (some left) (some right) rule rule place place'
      input := by
  refine matchesCompare_of_finds
    (fun name name' => name.folded = name'.folded) ?_ trivial rfl
    (fun _ _ _ => equalFolded_of_agree)
    fun _ _ => verdictsEqualFolded_of_agree
  intro offset _
  refine ⟨rfl, ?_, ?_⟩
  · intro _
    exact (foldedMatch_calls agree).greedyEnd_agree ⟨rfl, fun _ => Or.inl⟩
  · intro exhaustive
    cases greedy.symm.trans exhaustive

theorem namedAnswersCompare_of_agreement
    {name : Octets}
    (agreeHere : left.AgreeOn right name)
    (agreeBehind : ∀ other, NameBehind left name other →
      left.AgreeOn right other.spelling) :
    NamedAnswersCompare EqualFolded VerdictsEqualFolded options options
      left right name input := by
  have calls : (foldedMatch (NameBehind left name)).Calls options options
      (some left) (some right) input :=
    ⟨rfl, Or.inl rfl, foldedMatch_relates (closedOn_nameBehind _) agreeBehind⟩
  refine namedAnswersCompare_of_calls
    (fun name name' => name.folded = name'.folded) calls ?_ ?_ ?_
  · refine (Grammar.fetch_agree agreeHere rfl).imp ?_
    rintro rule rule' ⟨meaning, keys, elements⟩
    refine ⟨congrArg Tree.rule keys, ⟨elements, ?_⟩,
      RuleName.folded_eq_iff.mpr keys⟩
    intro other mentioned
    exact ⟨rule, meaning, Or.inl mentioned⟩
  · exact fun _ _ _ => equalFolded_of_agree
  · exact fun _ _ => verdictsEqualFolded_of_agree

end Agreement

section Addition

variable {grammar : Grammar} {added : Rule}

theorem answersCompare_of_addition
    {rule : Rule} {place : Place}
    (outOfReach : ∀ name, NameInReach grammar rule.element name →
      name.key ≠ added.key) :
    AnswersCompare (fun _ => (· = ·)) (· = ·) options options
      (some grammar) (some (grammar.add added)) rule rule place place
      input := by
  have calls : (extendedMatch (NameInReach grammar rule.element)).Calls
      options options (some grammar) (some (grammar.add added)) input :=
    ⟨rfl, Or.inl rfl,
      extendedMatch_relates (closedOn_nameInReach _) outOfReach⟩
  refine answersCompare_of_calls (· = ·) calls ⟨rfl, rfl⟩
    ⟨rfl, fun _ => Or.inl⟩ rfl ?_ ?_
  · intro α outcome outcome' agreed
    exact outcomes_equalUnless agreed fun _ _ => id
  · intro verdict verdict' agreed
    exact verdicts_equalUnless agreed fun failure _ =>
      Failure.not_isFault (fun _ => id) failure

theorem namedAnswersCompare_of_addition
    {name : Octets}
    (different : foldCase name ≠ added.key)
    (outOfReach : ∀ other, NameBehind grammar name other →
      other.key ≠ added.key) :
    NamedAnswersCompare (fun _ => (· = ·)) (· = ·) options options
      grammar (grammar.add added) name input := by
  have calls : (extendedMatch (NameBehind grammar name)).Calls options
      options (some grammar) (some (grammar.add added)) input :=
    ⟨rfl, Or.inl rfl,
      extendedMatch_relates (closedOn_nameBehind _) outOfReach⟩
  refine namedAnswersCompare_of_calls (· = ·) calls ?_ ?_ ?_
  · rw [Grammar.fetch_add_of_ne different]
    refine agree_self ?_ fun _ _ => ⟨rfl, trivial⟩
    intro rule found
    refine ⟨rfl, ⟨rfl, ?_⟩, rfl⟩
    intro other mentioned
    exact ⟨rule, Grammar.fetch_eq_ok_iff.mp found, Or.inl mentioned⟩
  · intro α outcome outcome' agreed
    exact outcomes_equalUnless agreed fun _ _ => id
  · intro verdict verdict' agreed
    exact verdicts_equalUnless agreed fun failure _ =>
      Failure.not_isFault (fun _ => id) failure

end Addition

theorem answersCompare_of_no_grammar
    {grammar : Option Grammar} {rule : Rule} {place place' : Place}
    (sameIndex : place.index = place'.index) :
    AnswersCompare (fun _ => EqualUnless Fault.IsNoGrammar)
      (EqualUnless (Failure.IsFault Fault.IsNoGrammar)) options options
      grammar none rule rule place place' input := by
  have calls : (plainMatch place.tree place'.tree).Calls options options
      grammar none input :=
    ⟨rfl, Or.inl rfl, plainMatch_relates⟩
  refine answersCompare_of_calls (· = ·) calls ⟨⟨rfl, rfl⟩, sameIndex⟩
    ⟨rfl, trivial⟩ rfl ?_ ?_
  · intro α outcome outcome' agreed
    exact outcomes_equalUnless agreed
  · intro verdict verdict' agreed
    exact verdicts_equalUnless agreed

/-! ### Elements that are stored in one grammar only -/

section Stored

variable {left right : Grammar} {rule : Rule} {offset : Offset}

/-- In one grammar, the right-hand side of a rule that is not left-recursive is
searched with the same result from outside, if that does not become too
deep. -/
theorem allEnds_agree_of_stored
    (fits : input.length < UInt64.size)
    (inside : offset.toNat ≤ input.length)
    (stored : left.find? rule.key = some rule)
    (free : ¬ LeftRecursive (some left) rule) :
    Agree (· = ·) IsTooDeep (· = ·)
      (allEnds options (some left) rule.element input offset
        (.rule rule.key)).outcome
      (allEnds options (some left) rule.element input offset).outcome := by
  rw [outcome_allEnds, outcome_allEnds]
  rcases Exhaustive.run_copy options.limit
    (addressable_setting options (some left) fits) stored free
    (inside_setting options (some left) inside) with
    same | ⟨cause, tooDeep, failed⟩
  · rw [same]
    exact agree_self (fun _ _ => rfl) fun _ _ => rfl
  · rw [failed]
    exact .excused tooDeep

/-- A fault that differs in the spelling of names only from having become too
deep does not differ from it. -/
theorem isTooDeep_of_folded_eq
    {cause cause' : Fault} (tooDeep : IsTooDeep cause)
    (same : cause.folded = cause'.folded) :
    IsTooDeep cause' := by
  obtain ⟨depth, rfl⟩ := tooDeep
  cases cause' <;> cases same
  exact ⟨depth, rfl⟩

theorem allEnds_agree_of_stored_agreement
    (agree : left.AgreeFrom right rule.element)
    (fits : input.length < UInt64.size)
    (inside : offset.toNat ≤ input.length)
    (stored : left.find? rule.key = some rule)
    (free : ¬ LeftRecursive (some left) rule) :
    Agree (fun cause cause' => cause.folded = cause'.folded) IsTooDeep (· = ·)
      (allEnds options (some left) rule.element input offset
        (.rule rule.key)).outcome
      (allEnds options (some right) rule.element input offset).outcome := by
  have outside :
      Agree (fun cause cause' => cause.folded = cause'.folded)
        (fun _ => False) (· = ·)
        (allEnds options (some left) rule.element input offset).outcome
        (allEnds options (some right) rule.element input offset).outcome :=
    (foldedMatch_calls agree).allEnds_agree ⟨rfl, rfl⟩
      ⟨rfl, fun _ => Or.inl⟩
  exact (outside.pardon fun _ => False.elim).after
    (allEnds_agree_of_stored fits inside stored free)
    fun _ _ => isTooDeep_of_folded_eq

theorem findsAgree_of_stored
    (agree : left.AgreeFrom right rule.element)
    (fits : input.length < UInt64.size)
    (inside : offset.toNat ≤ input.length)
    (stored : left.find? rule.key = some rule)
    (free : ¬ LeftRecursive (some left) rule) :
    FindsAgree (fun cause cause' => cause.folded = cause'.folded) IsTooDeep
      options options (some left) (some right) rule.element rule.element
      (.rule rule.key) .tested input offset := by
  refine ⟨rfl, ?_, ?_⟩
  · intro _
    have found :
        Agree (fun cause cause' => cause.folded = cause'.folded)
          (fun _ => False) (· = ·)
          (greedyEnd options (some left) rule.element input offset).outcome
          (greedyEnd options (some right) rule.element input
            offset).outcome :=
      (foldedMatch_calls agree).greedyEnd_agree ⟨rfl, fun _ => Or.inl⟩
    exact found.pardon fun _ => False.elim
  · intro _
    exact allEnds_agree_of_stored_agreement agree fits inside stored free

theorem matchesCompare_of_stored
    (agree : left.AgreeFrom right rule.element)
    (fits : input.length < UInt64.size)
    (stored : left.find? rule.key = some rule)
    (free : ¬ LeftRecursive (some left) rule) :
    MatchesCompare EqualFoldedUnlessTooDeep VerdictsEqualFoldedUnlessTooDeep
      (fun offset => offset.toNat ≤ input.length) options options
      (some left) (some right) rule rule (.rule rule.key) .tested input := by
  refine matchesCompare_of_finds
    (fun name name' => name.folded = name'.folded)
    (fun _ inside => findsAgree_of_stored agree fits inside stored free)
    (Nat.zero_le _) rfl ?_ ?_
  · intro α outcome outcome' agreed strict
    exact mapError_eq_of_agree agreed strict fun _ _ => id
  · intro verdict verdict' agreed strict
    exact mapError_eq_of_agree agreed strict fun _ _ => folded_eq_of_alike

theorem matchLengths_equalFolded_of_stored
    (agree : left.AgreeFrom right rule.element)
    (fits : input.length < UInt64.size)
    (inside : offset.toNat ≤ input.length)
    (stored : left.find? rule.key = some rule)
    (free : ¬ LeftRecursive (some left) rule) :
    EqualFoldedUnlessTooDeep (List UInt64)
      (matchLengths options (some left) rule.element input offset
        (.rule rule.key)).outcome
      (matchLengths options (some right) rule.element input
        offset).outcome := by
  rw [outcome_matchLengths, outcome_matchLengths]
  intro strict
  exact mapError_eq_of_agree
    ((allEnds_agree_of_stored_agreement agree fits inside stored free).map _)
    strict fun _ _ => id

end Stored

end Answers

/-! ### Grammars of one rule -/

theorem eq_of_lookup?_singleton
    {rule found : Rule} {name : Octets}
    (isFound : (Grammar.ofRules [rule]).lookup? name = some found) :
    found = rule := by
  unfold Grammar.lookup? Grammar.find? at isFound
  have stored : found ∈ (Grammar.ofRules [rule]).rules :=
    List.mem_of_find?_eq_some isFound
  exact List.mem_singleton.mp stored

theorem mem_mentions_of_nameInReach_singleton
    {rule : Rule} {name : RuleName}
    (inReach : NameInReach (.ofRules [rule]) rule.element name) :
    name ∈ rule.element.mentions := by
  rcases inReach with direct | ⟨other, reaches, mentioned⟩
  · exact direct
  · obtain ⟨reference, meaning⟩ := reaches.exists_meaning
    have sole : other = rule := eq_of_lookup?_singleton meaning
    exact sole ▸ mentioned

theorem mem_mentions_of_nameBehind_singleton
    {rule : Rule} {start : Octets} {name : RuleName}
    (behind : NameBehind (.ofRules [rule]) start name) :
    name ∈ rule.element.mentions := by
  obtain ⟨first, found, inReach⟩ := behind
  have sole : first = rule := eq_of_lookup?_singleton found
  rw [sole] at inReach
  exact mem_mentions_of_nameInReach_singleton inReach

/-! ### Entry points -/

/-- Only the rules that are in reach decide, and only up to the letter case of
the names in them. Grammars that agree on the names in reach, be it of an
element or of a name, give the same answers at every entry point, except that a
name may be spelled in another way; an element stands at the same place both
times. For greedy matching the places do not matter. If the element is the
right-hand side of a rule in one grammar and comes from outside to the other
one, exhaustive matching still gives the same answers unless the rule is
left-recursive, but it may become too deep with the other one. Adding or
replacing a rule that is out of reach changes nothing at all, nor does having a
grammar, unless a match asks for it; the element may then stand in different
trees. -/
theorem reachable_rules_decide
    {options : Options} {input : Octets} :
    (∀ left right rule place,
      left.AgreeFrom right rule.element →
      AnswersCompare EqualFolded VerdictsEqualFolded options options
        (some left) (some right) rule rule place place input) ∧
    (∀ left right rule place place',
      left.AgreeFrom right rule.element →
      options.strategy = .greedy →
      MatchesCompare EqualFolded VerdictsEqualFolded (fun _ => True)
        options options (some left) (some right) rule rule place place'
        input) ∧
    (∀ left right rule,
      left.AgreeFrom right rule.element →
      input.length < UInt64.size →
      left.find? rule.key = some rule →
      ¬ LeftRecursive (some left) rule →
      MatchesCompare EqualFoldedUnlessTooDeep VerdictsEqualFoldedUnlessTooDeep
        (fun offset => offset.toNat ≤ input.length) options options
        (some left) (some right) rule rule (.rule rule.key) .tested input ∧
      ∀ offset : Offset, offset.toNat ≤ input.length →
        EqualFoldedUnlessTooDeep (List UInt64)
          (matchLengths options (some left) rule.element input offset
            (.rule rule.key)).outcome
          (matchLengths options (some right) rule.element input
            offset .tested).outcome) ∧
    (∀ left right name,
      left.AgreeOn right name →
      (∀ other, NameBehind left name other →
        left.AgreeOn right other.spelling) →
      NamedAnswersCompare EqualFolded VerdictsEqualFolded options options
        left right name input) ∧
    (∀ grammar added rule place,
      (∀ name, NameInReach grammar rule.element name →
        name.key ≠ added.key) →
      AnswersCompare (fun _ => (· = ·)) (· = ·) options options
        (some grammar) (some (grammar.add added)) rule rule place place
        input) ∧
    (∀ grammar added name,
      foldCase name ≠ added.key →
      (∀ other, NameBehind grammar name other → other.key ≠ added.key) →
      NamedAnswersCompare (fun _ => (· = ·)) (· = ·) options options
        grammar (grammar.add added) name input) ∧
    (∀ grammar rule place place',
      place.index = place'.index →
      AnswersCompare (fun _ => EqualUnless Fault.IsNoGrammar)
        (EqualUnless (Failure.IsFault Fault.IsNoGrammar)) options options
        grammar none rule rule place place' input) := by
  refine ⟨?_, ?_, ?_, ?_, ?_, ?_, ?_⟩
  · intro left right rule place agree
    exact answersCompare_of_agreement agree
  · intro left right rule place place' agree greedy
    exact matchesCompare_of_greedy agree greedy
  · intro left right rule agree fits stored free
    refine ⟨matchesCompare_of_stored agree fits stored free, ?_⟩
    intro offset inside
    exact matchLengths_equalFolded_of_stored agree fits inside stored free
  · intro left right name agreeHere agreeBehind
    exact namedAnswersCompare_of_agreement agreeHere agreeBehind
  · intro grammar added rule place outOfReach
    exact answersCompare_of_addition outOfReach
  · intro grammar added name different outOfReach
    exact namedAnswersCompare_of_addition different outOfReach
  · intro grammar rule place place' sameIndex
    exact answersCompare_of_no_grammar sameIndex

/-- The rule `YS = "x" Ys / "x"`, which is `growingRight` in capitals. -/
def growingRightCapitals : Rule :=
  let letter := Element.terminal (.caseless (octets "x"))
  ⟨.ofText "YS",
    .alternation [.sequence [letter, .reference (.ofText "Ys")], letter]⟩

/-- The rule `ys = "x" ys / "x"` may be replaced by the one in capitals: the
whole of two octets still conforms, and of three octets with another letter at
the end the same part. The lengths that its right-hand side matches are the same
from outside. It makes no difference either if a grammar has a rule that `ys`
does not refer to, or if there is a grammar at all as long as none is asked
for. -/
theorem reachable_rules_decide_growingRight :
    (validateNamed {} (.ofRules [growingRight]) (octets "ys")
      (octets "xxz")).outcome.mapError Failure.folded =
        (validateNamed {} (.ofRules [growingRightCapitals]) (octets "ys")
          (octets "xxz")).outcome.mapError Failure.folded ∧
    (matchLengths {} (some (.ofRules [growingRight])) growingRight.element
      (octets "xxz") 0 (.rule growingRight.key)).outcome.mapError
        Fault.folded = .ok [1, 2] ∧
    (conformsNamed {} (.ofRules [growingRight]) (octets "ys")
      (octets "xxz")).outcome =
        (conformsNamed {} ((Grammar.ofRules [growingRight]).add growingLeft)
          (octets "ys") (octets "xxz")).outcome ∧
    (matchElement {} (some (.ofRules [growingRight]))
      (.option growingRight.element) (octets "z") 0).outcome =
        .ok (some 0) := by
  have sole : ∀ name ∈ growingRight.element.mentions,
      name = growingRight.name :=
    fun _ member => List.mem_singleton.mp member
  have agreeHere : (Grammar.ofRules [growingRight]).AgreeOn
      (.ofRules [growingRightCapitals]) (octets "ys") := by
    rfl
  have agreeBehind : ∀ other,
      NameBehind (.ofRules [growingRight]) (octets "ys") other →
      (Grammar.ofRules [growingRight]).AgreeOn
        (.ofRules [growingRightCapitals]) other.spelling := by
    intro other behind
    rw [sole other (mem_mentions_of_nameBehind_singleton behind)]
    rfl
  have agree : (Grammar.ofRules [growingRight]).AgreeFrom
      (.ofRules [growingRightCapitals]) growingRight.element := by
    intro name inReach
    rw [sole name (mem_mentions_of_nameInReach_singleton inReach)]
    rfl
  have fits : (octets "xxz").length < UInt64.size := by
    decide
  have mentioned : growingRight.name ∈ growingRight.element.mentions :=
    List.mem_singleton_self _
  have free : ¬ LeftRecursive (some (.ofRules [growingRight]))
      growingRight :=
    freeOfLeftRecursion_growingRight growingRight (.directly mentioned rfl)
  have outside : (matchLengths {} (some (.ofRules [growingRightCapitals]))
      growingRight.element (octets "xxz") 0 .tested).outcome =
        .ok [1, 2] := by
    rfl
  have different : foldCase (octets "ys") ≠ growingLeft.key := by
    decide
  have outOfReach : ∀ other,
      NameBehind (.ofRules [growingRight]) (octets "ys") other →
      other.key ≠ growingLeft.key := by
    intro other behind
    rw [sole other (mem_mentions_of_nameBehind_singleton behind)]
    decide
  have plain : (matchElement {} none (.option growingRight.element)
      (octets "z") 0).outcome = .ok (some 0) := by
    rfl
  obtain ⟨_, _, ofStored, ofAgreement, _, ofAddition, _⟩ :=
    @reachable_rules_decide {} (octets "xxz")
  obtain ⟨_, _, _, _, _, _, ofNoGrammar⟩ :=
    @reachable_rules_decide {} (octets "z")
  have replaced := ofAgreement _ _ _ agreeHere agreeBehind
  have stored := (ofStored _ _ _ agree fits rfl free).2 0 (Nat.zero_le _)
  have added := ofAddition _ _ _ different outOfReach
  have unasked :=
    ofNoGrammar (some (.ofRules [growingRight]))
      ⟨growingRight.name, .option growingRight.element⟩ .tested .tested rfl
  refine ⟨replaced.validated, ?_, added.decided, ?_⟩
  · refine (stored ?_).trans (congrArg (Except.mapError Fault.folded) outside)
    intro cause failed
    rw [outside] at failed
    cases failed
  · refine (unasked.matched 0 ?_).trans plain
    intro cause failed
    rw [plain] at failed
    cases failed

/-- Rules in reach do not decide alone. The right-hand side of the rule
`xs = xs "x" / "x"` matches no more than one octet of two with the grammar in
which it is stored. With another grammar that has an equal rule of its own, and
one more rule that is out of reach, the same element matches both octets. -/
theorem stored_element_differs_growingLeft :
    (Grammar.ofRules [growingLeft]).AgreeFrom
      (.ofRules [growingLeft, growingRight]) growingLeft.element ∧
    (Grammar.ofRules [growingLeft]).find? growingLeft.key =
      some growingLeft ∧
    (matchLengths {} (some (.ofRules [growingLeft])) growingLeft.element
      (octets "xx") 0 (.rule growingLeft.key)).outcome = .ok [1] ∧
    (matchLengths {} (some (.ofRules [growingLeft, growingRight]))
      growingLeft.element (octets "xx") 0 .tested).outcome = .ok [1, 2] ∧
    (conforms { strategy := .exhaustive } (some (.ofRules [growingLeft]))
      growingLeft (octets "xx") (.rule growingLeft.key)).outcome =
        .ok false ∧
    (conforms { strategy := .exhaustive }
      (some (.ofRules [growingLeft, growingRight])) growingLeft
      (octets "xx") .tested).outcome = .ok true := by
  refine ⟨?_, rfl, rfl, rfl, rfl, rfl⟩
  intro name inReach
  have sole : name = growingLeft.name :=
    List.mem_singleton.mp (mem_mentions_of_nameInReach_singleton inReach)
  rw [sole]
  rfl

end Conformance

end AbnfMatching
