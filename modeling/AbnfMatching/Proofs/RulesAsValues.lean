import AbnfMatching.Proofs.Copies

/-!
# Rules as values

An input may be checked against a rule that is given by name, or against a copy
of that rule. Greedy matching makes no difference between the two. For
exhaustive matching they are told apart by the visits that are filed; yet the
outcome is the same if the rule is not left-recursive, whatever the other rules
are, except that the nesting limit may be reached with the copy.
-/

namespace AbnfMatching

namespace Exhaustive

theorem run_copy
    {setting : Setting} (limit : Nat) {key : Octets} {rule : Rule}
    {offset : Offset}
    (fits : setting.Addressable)
    (copied : Copied setting.grammar key rule)
    (free : ¬ LeftRecursive setting.grammar rule)
    (inside : offset.toNat ≤ setting.input.size) :
    (run setting limit (Place.tested.occurrence rule.element) offset).1 =
        (run setting limit ((Place.rule key).occurrence rule.element)
          offset).1 ∨
      ∃ cause, IsTooDeep cause ∧
        (run setting limit (Place.tested.occurrence rule.element) offset).1 =
          .error cause := by
  have tallies := visit_simulates limit fits copied free Place.holds_tested
    inside encloses_nil ⟨.empty, #[]⟩ ⟨.empty, #[]⟩ mirrors_empty
  change Tallies _ _ _
    (run setting limit ((Place.rule key).occurrence rule.element) offset)
    (run setting limit (Place.tested.occurrence rule.element) offset)
    at tallies
  generalize run setting limit ((Place.rule key).occurrence rule.element)
    offset = original at tallies ⊢
  generalize run setting limit (Place.tested.occurrence rule.element) offset =
    copy at tallies ⊢
  cases tallies with
  | values _ agreed =>
      cases agreed
      exact Or.inl rfl
  | faults => exact Or.inl rfl
  | excused pardoned => exact Or.inr ⟨_, pardoned, rfl⟩

end Exhaustive

namespace Conformance

section Validate

variable {options : Options} {grammar : Grammar} {name : Octets}
  {rule : Rule} {input : Octets}

theorem copied_of_fetch (found : grammar.fetch name = .ok rule) :
    Copied (some grammar) rule.key rule :=
  Grammar.find?_key_of_fetch found

/-- The outcome of a check against a copy of a rule is that of a check by name,
or the nesting limit is reached with the copy, unless matching is exhaustive and
the rule is left-recursive. -/
theorem validate_copy
    (fits : input.length < UInt64.size)
    (found : grammar.fetch name = .ok rule)
    (steady : options.strategy = .greedy ∨
      ¬ LeftRecursive (some grammar) rule) :
    (validate options (some grammar) rule input).outcome =
        (validateNamed options grammar name input).outcome ∨
      ∃ depth, (validate options (some grammar) rule input).outcome =
        .error (.fault (.tooDeep depth)) := by
  rw [outcome_validateNamed found]
  cases strategy : options.strategy with
  | greedy =>
      left
      rw [outcome_validate_greedy strategy, outcome_validate_greedy strategy]
  | exhaustive =>
      have free : ¬ LeftRecursive (some grammar) rule := by
        rcases steady with greedy | free
        · cases strategy.symm.trans greedy
        · exact free
      have inside :
          (0 : Offset).toNat ≤
            (setting options (some grammar) input).input.size :=
        Nat.zero_le _
      rw [outcome_validate_exhaustive strategy,
        outcome_validate_exhaustive strategy, outcome_allEnds,
        outcome_allEnds]
      rcases Exhaustive.run_copy options.limit
        (addressable_setting options (some grammar) fits)
        (copied_of_fetch found) free inside with
        same | ⟨_, ⟨depth, rfl⟩, tooDeep⟩
      · left
        rw [same]
      · right
        refine ⟨depth, ?_⟩
        rw [tooDeep]
        rfl

end Validate

/-- The rule `xs = xs "x" / "x"` makes the difference: by name, the visit of
`xs` within that of `xs` is under way already, while the copy is left for the
rule once. -/
theorem validate_copy_growingLeft :
    Grammar.fetch (.ofRules [growingLeft]) (octets "xs") =
      .ok growingLeft ∧
    (validateNamed { strategy := .exhaustive } (.ofRules [growingLeft])
      (octets "xs") (octets "xx")).outcome =
        .error (.rejected (.incomplete growingLeft.name 1 2)) ∧
    (validate { strategy := .exhaustive } (some (.ofRules [growingLeft]))
      growingLeft (octets "xx")).outcome = .ok () := by
  exact ⟨rfl, rfl, rfl⟩

/-- The rule `more = xs "x"`, which begins with a left-recursive rule. -/
def afterGrowing : Rule :=
  ⟨.ofText "more", .sequence
    [.reference growingLeft.name, .terminal (.caseless (octets "x"))]⟩

def growingRules : Grammar :=
  .ofRules [growingLeft, afterGrowing]

theorem eq_growingLeft_of_beginsWith
    {rule next : Rule} (sole : rule = growingLeft ∨ rule = afterGrowing)
    (begins : BeginsWith (some growingRules) rule next) :
    next = growingLeft := by
  obtain ⟨name, edge, meaning⟩ := begins
  have sameName : name = growingLeft.name := by
    rcases sole with rfl | rfl
    · cases edge with
      | branch member branchEdge =>
          simp only [List.mem_cons, List.not_mem_nil, or_false] at member
          rcases member with rfl | rfl
          · cases branchEdge with
            | head headEdge =>
                cases headEdge
                rfl
            | tail _ tailEdge =>
                cases tailEdge with
                | head letterEdge => cases letterEdge
                | tail _ nothing => cases nothing
          · cases branchEdge
    · cases edge with
      | head headEdge =>
          cases headEdge
          rfl
      | tail _ tailEdge =>
          cases tailEdge with
          | head letterEdge => cases letterEdge
          | tail _ nothing => cases nothing
  have meant : ruleOf (some growingRules) growingLeft.name =
      some growingLeft := by
    rfl
  rw [sameName, meant] at meaning
  exact (Option.some.inj meaning).symm

theorem not_leftRecursive_afterGrowing :
    ¬ LeftRecursive (some growingRules) afterGrowing := by
  intro recursive
  have reached : ∀ rule,
      Relation.TransGen (BeginsWith (some growingRules)) afterGrowing rule →
      rule = growingLeft := by
    intro rule chain
    induction chain with
    | single begins =>
        exact eq_growingLeft_of_beginsWith (Or.inr rfl) begins
    | tail _ begins inductionHypothesis =>
        exact eq_growingLeft_of_beginsWith (Or.inl inductionHypothesis)
          begins
  have same := reached afterGrowing recursive
  exact absurd same (by decide)

theorem validate_copy_afterGrowing :
    (validate { strategy := .exhaustive } (some growingRules) afterGrowing
      (octets "xx")).outcome = .ok () ∧
    ((validate { strategy := .exhaustive } (some growingRules) afterGrowing
      (octets "xx")).outcome =
        (validateNamed { strategy := .exhaustive } growingRules
          (octets "more") (octets "xx")).outcome ∨
      ∃ depth, (validate { strategy := .exhaustive } (some growingRules)
        afterGrowing (octets "xx")).outcome =
          .error (.fault (.tooDeep depth))) := by
  have fits : (octets "xx").length < UInt64.size := by
    decide
  have found : growingRules.fetch (octets "more") = .ok afterGrowing := by
    rfl
  exact ⟨rfl, validate_copy fits found
    (Or.inr not_leftRecursive_afterGrowing)⟩

end Conformance

end AbnfMatching
