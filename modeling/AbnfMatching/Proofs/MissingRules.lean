import AbnfMatching.Proofs.Exactness
import AbnfMatching.Proofs.MatchesInStep
import AbnfMatching.Proofs.Nodes

/-!
# Missing rules

A match looks up the rule that a reference means when it comes across the
reference, which may be in the element under test or in any rule that has been
looked up before. All of these references are known beforehand: they are those
of the element and those of the rules of the grammar. A walk over each rule of
the grammar therefore tells which rules a match may find missing.
-/

namespace AbnfMatching

/-- The references that no rule of the grammar defines are found in its
rules. -/
theorem Grammar.mem_undefinedReferences
    {grammar : Grammar} {name : RuleName} :
    name ∈ grammar.undefinedReferences ↔
      (∃ rule ∈ grammar.rules, name ∈ rule.element.mentions) ∧
        grammar.defines name.spelling = false := by
  simp [undefinedReferences]

theorem Grammar.mem_rules_of_fetch
    {grammar : Grammar} {name : Octets} {rule : Rule}
    (found : grammar.fetch name = .ok rule) :
    rule ∈ grammar.rules :=
  List.mem_of_find?_eq_some (find?_key_of_fetch found)

/-- A reference in the element under test or in a rule of the grammar. -/
def Mentioned
    (grammar : Option Grammar) (subject : Element) (name : RuleName) : Prop :=
  name ∈ subject.mentions ∨
    ∃ rule ∈ rulesOf grammar, name ∈ rule.element.mentions

/-- What is known of the faults with which a match of the element may stop. If a
rule is undefined, the grammar lacks it, and either the grammar itself or the
element has a reference of this spelling. If a grammar is missing, none was
given, and the element has such a reference. -/
def Fault.Accounted (grammar : Option Grammar) (subject : Element) :
    Fault → Prop
  | .undefinedRule name =>
      ∃ present reference, grammar = some present ∧
        reference.spelling = name ∧
        present.defines name = false ∧
        (reference ∈ present.undefinedReferences ∨
          reference ∈ subject.references)
  | .noGrammar name =>
      grammar = none ∧ ∃ reference ∈ subject.references,
        reference.spelling = name
  | .tooDeep _ => True
  | .outOfRange => True

def Fault.IsUndefinedRule (cause : Fault) : Prop :=
  ∃ name, cause = .undefinedRule name

section Accounted

variable {grammar : Option Grammar} {subject : Element}

theorem accounted_of_resolve
    {setting : Setting} {name : RuleName} {cause : Fault}
    (mentioned : Mentioned setting.grammar subject name)
    (failed : setting.resolve name = .error cause) :
    cause.Accounted setting.grammar subject := by
  unfold Setting.resolve at failed
  split at failed
  · next missing =>
      cases failed
      refine ⟨missing, name, ?_, rfl⟩
      rcases mentioned with inSubject | ⟨rule, member, _⟩
      · exact Element.mem_references.mpr inSubject
      · rw [missing] at member
        exact absurd member List.not_mem_nil
  · next present isPresent =>
      unfold Grammar.fetch at failed
      split at failed
      · cases failed
      · next notFound =>
          cases failed
          have lacks : present.defines name.spelling = false := by
            rw [Grammar.defines, notFound]
            rfl
          refine ⟨present, name, isPresent, rfl, lacks, ?_⟩
          rcases mentioned with inSubject | ⟨rule, member, inRule⟩
          · exact Or.inr (Element.mem_references.mpr inSubject)
          · rw [isPresent] at member
            exact Or.inl
              (Grammar.mem_undefinedReferences.mpr
                ⟨⟨rule, member, inRule⟩, lacks⟩)

/-- A match compared with itself, where all elements have known references and
all faults are accounted for. -/
def accounting (grammar : Option Grammar) (subject : Element) : Likeness :=
  .restricted (· = ·)
    (fun element => ∀ name ∈ element.mentions,
      Mentioned grammar subject name)
    (Fault.Accounted grammar subject) fun _ => False

theorem accounting_relates
    {setting : Setting} (given : setting.grammar = grammar) :
    (accounting grammar subject).Relates setting setting := by
  subst given
  refine Likeness.relates_restricted rfl biUnique_eq ?_ ?_ ?_
  · intro element part known member name mentioned
    exact known name
      (Element.mentions_subset_of_mem_children member mentioned)
  · intro name known
    refine agree_self ?_ ?_
    · intro rule resolved
      refine ⟨rfl, rfl, ?_⟩
      intro inner mentioned
      have member := mem_rulesOf_of_ruleOf (ruleOf_of_resolve resolved)
      exact Or.inr ⟨rule, member, mentioned⟩
    · intro cause failed
      have mentioned := known name (List.mem_singleton_self name)
      exact ⟨rfl, accounted_of_resolve mentioned failed⟩
  · intro cause resolved
    cases cause with
    | noGrammar name => exact absurd trivial resolved
    | undefinedRule name => exact absurd trivial resolved
    | tooDeep limit => trivial
    | outOfRange => trivial

end Accounted

namespace Conformance

/-- No call about the rule, at any entry point, stops with a fault that is not
tolerated. -/
structure StopsOnly
    (tolerated : Fault → Prop) (options : Options) (grammar : Option Grammar)
    (rule : Rule) (place : Place) (input : Octets) : Prop where
  matched : ∀ offset cause,
    (matchElement options grammar rule.element input offset place).outcome =
      .error cause → tolerated cause
  listed : ∀ offset cause,
    (matchLengths options grammar rule.element input offset place).outcome =
      .error cause → tolerated cause
  validated : ∀ cause,
    (validate options grammar rule input place).outcome =
      .error (.fault cause) → tolerated cause
  decided : ∀ cause,
    (conforms options grammar rule input place).outcome = .error cause →
      tolerated cause

theorem StopsOnly.mono
    {tolerated wider : Fault → Prop} {options : Options}
    {grammar : Option Grammar} {rule : Rule} {place : Place} {input : Octets}
    (stops : StopsOnly tolerated options grammar rule place input)
    (widen : ∀ cause, tolerated cause → wider cause) :
    StopsOnly wider options grammar rule place input :=
  ⟨fun offset cause failed => widen cause (stops.matched offset cause failed),
    fun offset cause failed => widen cause (stops.listed offset cause failed),
    fun cause failed => widen cause (stops.validated cause failed),
    fun cause failed => widen cause (stops.decided cause failed)⟩

/-- No call about the rule of the name stops with a fault that is not
tolerated. -/
structure NamedStopsOnly
    (tolerated : Fault → Prop) (options : Options) (present : Grammar)
    (name input : Octets) : Prop where
  validated : ∀ cause,
    (validateNamed options present name input).outcome =
      .error (.fault cause) → tolerated cause
  decided : ∀ cause,
    (conformsNamed options present name input).outcome = .error cause →
      tolerated cause

theorem StopsOnly.named
    {tolerated : Fault → Prop} {options : Options} {present : Grammar}
    {name input : Octets} {rule : Rule}
    (stops : StopsOnly tolerated options (some present) rule
      (.rule rule.key) input)
    (found : present.fetch name = .ok rule) :
    NamedStopsOnly tolerated options present name input := by
  constructor
  · intro cause failed
    rw [outcome_validateNamed found] at failed
    exact stops.validated cause failed
  · intro cause failed
    rw [outcome_conformsNamed, outcome_validateNamed found] at failed
    exact stops.decided cause failed

section StopsOnly

variable {options : Options} {grammar : Option Grammar} {input : Octets}

theorem accounting_calls {subject : Element} :
    (accounting grammar subject).Calls options options grammar grammar
      input :=
  ⟨rfl, Or.inl rfl, accounting_relates rfl⟩

theorem tolerated_of_agree
    {α : Type} {tolerated : Fault → Prop} {left right : Except Fault α}
    {cause : Fault}
    (agree : Agree (fun own other => own = other ∧ tolerated own)
      (fun _ => False) (· = ·) left right)
    (failed : left = .error cause) :
    tolerated cause := by
  subst failed
  cases agree with
  | errors alike => exact alike.2
  | excused pardoned => exact pardoned.elim

theorem tolerated_of_verdicts_agree
    {tolerated : Fault → Prop} {left right : Except Failure Unit}
    {cause : Fault}
    (agree : Agree
      (Failure.Alike (· = ·) fun own other => own = other ∧ tolerated own)
      (Failure.IsFault fun _ => False) (· = ·) left right)
    (failed : left = .error (.fault cause)) :
    tolerated cause := by
  subst failed
  cases agree with
  | errors alike =>
      cases alike with
      | fault related => exact related.2
  | @excused _ failure pardoned =>
      cases failure <;> exact pardoned.elim

theorem stopsOnly_accounted (rule : Rule) (place : Place) :
    StopsOnly (Fault.Accounted grammar rule.element) options grammar rule
      place input := by
  have calls : (accounting grammar rule.element).Calls options options
      grammar grammar input :=
    accounting_calls
  have known : (accounting grammar rule.element).elements rule.element
      rule.element :=
    ⟨rfl, fun _ => Or.inl⟩
  have finds : ∀ offset, FindsAgree _ _ options options grammar grammar
      rule.element rule.element place place input offset :=
    fun _ => calls.findsAgree ⟨rfl, rfl⟩ known
  refine ⟨?_, ?_, ?_, ?_⟩
  · intro offset cause failed
    exact tolerated_of_agree (finds offset).matchElement_agree failed
  · intro offset cause failed
    exact tolerated_of_agree
      (calls.matchLengths_agree ⟨rfl, rfl⟩ known) failed
  · intro cause failed
    exact tolerated_of_verdicts_agree ((finds 0).validate_agree rfl) failed
  · intro cause failed
    exact tolerated_of_agree (finds 0).conforms_agree failed

theorem not_isUndefinedRule_of_accounted
    {present : Grammar} {rule : Rule} {cause : Fault}
    (closed : present.undefinedReferences = [])
    (member : rule ∈ present.rules)
    (accounted : cause.Accounted (some present) rule.element) :
    ¬ cause.IsUndefinedRule := by
  rintro ⟨name, rfl⟩
  obtain ⟨_, reference, ⟨⟩, rfl, lacks, source⟩ := accounted
  rcases source with inGrammar | inElement
  · rw [closed] at inGrammar
    exact List.not_mem_nil inGrammar
  · have undefined : reference ∈ present.undefinedReferences :=
      Grammar.mem_undefinedReferences.mpr
        ⟨⟨rule, member, Element.mem_references.mp inElement⟩, lacks⟩
    rw [closed] at undefined
    exact List.not_mem_nil undefined

end StopsOnly

/-- Whatever rule a call misses, a walk over the grammar and over the element
under test tells that it may be missing. If the grammar refers to no rule that
it lacks, no call about one of its rules, be it by name, misses a rule. -/
theorem missing_rules_accounted
    {options : Options} {grammar : Option Grammar} {input : Octets} :
    (∀ rule place,
      StopsOnly (Fault.Accounted grammar rule.element) options grammar rule
        place input) ∧
    (∀ present, grammar = some present →
      present.undefinedReferences = [] →
      (∀ rule ∈ present.rules, ∀ place,
        StopsOnly (fun cause => ¬ cause.IsUndefinedRule) options grammar rule
          place input) ∧
      (∀ name, present.defines name = true →
        NamedStopsOnly (fun cause => ¬ cause.IsUndefinedRule) options present
          name input)) := by
  refine ⟨fun rule place => stopsOnly_accounted rule place, ?_⟩
  intro present isPresent closed
  subst isPresent
  have stored : ∀ rule ∈ present.rules, ∀ place,
      StopsOnly (fun cause => ¬ cause.IsUndefinedRule) options
        (some present) rule place input := by
    intro rule member place
    exact (stopsOnly_accounted rule place).mono fun _ =>
      not_isUndefinedRule_of_accounted closed member
  refine ⟨stored, ?_⟩
  intro name defined
  obtain ⟨rule, isRule⟩ := Option.isSome_iff_exists.mp defined
  have found : present.fetch name = .ok rule := by
    rw [Grammar.fetch, isRule]
  exact (stored rule (Grammar.mem_rules_of_fetch found) _).named found

/-- The rule `ys = "x" ys / "x"` is matched with a grammar of the rule
`xs = xs "x" / "x"` only: its own reference is missing. No call about a rule of
the grammar misses one. -/
theorem missing_rules_accounted_growingLeft :
    (validate {} (some (.ofRules [growingLeft])) growingRight
      (octets "xx")).outcome =
        .error (.fault (.undefinedRule (octets "ys"))) ∧
    Fault.Accounted (some (.ofRules [growingLeft])) growingRight.element
      (.undefinedRule (octets "ys")) ∧
    NamedStopsOnly (fun cause => ¬ cause.IsUndefinedRule)
      { strategy := .exhaustive } (.ofRules [growingLeft]) (octets "XS")
      (octets "xx") := by
  have missed :
      (validate {} (some (.ofRules [growingLeft])) growingRight
        (octets "xx")).outcome =
          .error (.fault (.undefinedRule (octets "ys"))) := by
    rfl
  have accounted :=
    (@missing_rules_accounted {} (some (.ofRules [growingLeft]))
      (octets "xx")).1 growingRight .tested
  have closed : (Grammar.ofRules [growingLeft]).undefinedReferences = [] := by
    rfl
  have defined :
      (Grammar.ofRules [growingLeft]).defines (octets "XS") = true := by
    rfl
  have stored :=
    ((@missing_rules_accounted { strategy := .exhaustive }
      (some (.ofRules [growingLeft])) (octets "xx")).2 _ rfl closed).2 _
        defined
  exact ⟨missed, accounted.validated _ missed, stored⟩

end Conformance

end AbnfMatching
