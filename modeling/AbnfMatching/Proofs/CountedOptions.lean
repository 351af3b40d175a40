import AbnfMatching.Proofs.MatchesInStep
import AbnfMatching.Proofs.Soundness

/-!
# Options as repetitions

An option of an element and a repetition of none or one round of it are the
same. Any options of an element may be written as such repetitions, and so may
options in the rules of its grammar: elements keep their sizes and nodes their
numbers, so that both ways of matching go through the same visits, with the same
levels, and come to the same ends or faults.
-/

namespace AbnfMatching

/-- None or one round. -/
def Bounds.atMostOnce : Bounds :=
  ⟨0, some 1, by simp⟩

/-- The second element is the first one with some of its options, at any depth,
written as repetitions of at most one round. -/
inductive OptionsCounted : Element → Element → Prop
  | terminal (value : Terminal) :
      OptionsCounted (.terminal value) (.terminal value)
  | reference (name : RuleName) :
      OptionsCounted (.reference name) (.reference name)
  | sequence {parts parts' : List Element} :
      List.Forall₂ OptionsCounted parts parts' →
      OptionsCounted (.sequence parts) (.sequence parts')
  | alternation {branches branches' : List Element} :
      List.Forall₂ OptionsCounted branches branches' →
      OptionsCounted (.alternation branches) (.alternation branches')
  | option {body body' : Element} :
      OptionsCounted body body' →
      OptionsCounted (.option body) (.option body')
  | repetition (bounds : Bounds) {body body' : Element} :
      OptionsCounted body body' →
      OptionsCounted (.repetition bounds body) (.repetition bounds body')
  | counted {body body' : Element} :
      OptionsCounted body body' →
      OptionsCounted (.option body) (.repetition .atMostOnce body')

namespace OptionsCounted

mutual

theorem refl (element : Element) : OptionsCounted element element := by
  cases element with
  | terminal value => exact .terminal value
  | reference name => exact .reference name
  | sequence parts => exact .sequence (reflAll parts)
  | alternation branches => exact .alternation (reflAll branches)
  | option body => exact .option (refl body)
  | repetition bounds body => exact .repetition bounds (refl body)

theorem reflAll (elements : List Element) :
    List.Forall₂ OptionsCounted elements elements := by
  cases elements with
  | nil => exact .nil
  | cons head tail => exact .cons (refl head) (reflAll tail)

end

mutual

theorem size_eq
    {element element' : Element} (counted : OptionsCounted element element') :
    element.size = element'.size := by
  cases counted with
  | terminal value => rfl
  | reference name => rfl
  | sequence related => simp only [Element.size, sizeOfAll_eq related]
  | alternation related => simp only [Element.size, sizeOfAll_eq related]
  | option related => simp only [Element.size, size_eq related]
  | repetition bounds related => simp only [Element.size, size_eq related]
  | counted related => simp only [Element.size, size_eq related]

theorem sizeOfAll_eq
    {elements elements' : List Element}
    (counted : List.Forall₂ OptionsCounted elements elements') :
    Element.sizeOfAll elements = Element.sizeOfAll elements' := by
  cases counted with
  | nil => rfl
  | cons head tail =>
      simp only [Element.sizeOfAll, size_eq head, sizeOfAll_eq tail]

end

theorem sameKind
    {element element' : Element} (counted : OptionsCounted element element') :
    SameKind OptionsCounted element element' := by
  cases counted with
  | terminal value => exact .terminal value
  | reference name => exact .reference name name
  | sequence related => exact .sequence related
  | alternation related => exact .alternation related
  | option related => exact .option related
  | repetition bounds related => exact .repetition bounds related
  | counted related => exact .counted rfl rfl related

end OptionsCounted

/-! ## Rules and grammars -/

/-- Rules of the same name, where options are counted in the second one. -/
structure RulesCounted (rule rule' : Rule) : Prop where
  name : rule.name = rule'.name
  element : OptionsCounted rule.element rule'.element

/-- Grammars whose rules correspond, where options are counted in those of the
second one. -/
def GrammarsCounted (left right : Grammar) : Prop :=
  List.Forall₂ RulesCounted left.rules right.rules

section Rules

variable {left right : Grammar} {rule rule' : Rule}

theorem RulesCounted.key (counted : RulesCounted rule rule') :
    rule.key = rule'.key :=
  congrArg RuleName.key counted.name

/-- Either grammar lacks the rule of a name, or their rules correspond. -/
theorem GrammarsCounted.fetch
    (counted : GrammarsCounted left right) (name : Octets) :
    Agree (· = ·) (fun _ => False) RulesCounted
      (left.fetch name) (right.fetch name) := by
  unfold Grammar.fetch Grammar.lookup? Grammar.find?
  unfold GrammarsCounted at counted
  generalize left.rules = rules at counted
  generalize right.rules = rules' at counted
  induction counted with
  | nil =>
      exact .errors rfl
  | @cons head head' tail tail' heads _ inductionHypothesis =>
      simp only [List.find?_cons, ← heads.key]
      cases head.key == foldCase name with
      | true => exact .values heads
      | false => exact inductionHypothesis

end Rules

/-- Two matches of which the second one has some options counted. -/
def countedOptions : Likeness where
  trees := (· = ·)
  elements := OptionsCounted
  faults := (· = ·)
  excused _ := False

theorem countedOptions_relates
    {grammar grammar' : Option Grammar} {input : Array UInt8} {verbose : Bool}
    (counted : Option.Rel GrammarsCounted grammar grammar') :
    countedOptions.Relates ⟨input, grammar, verbose⟩
      ⟨input, grammar', verbose⟩ where
  input := rfl
  trees := biUnique_eq
  kinds := fun _ _ => OptionsCounted.sameKind
  sizes := fun _ _ => OptionsCounted.size_eq
  meaning := by
    rintro name _ ⟨⟩
    unfold Setting.resolve
    cases counted with
    | none =>
        exact .errors rfl
    | some grammars =>
        refine (grammars.fetch name.spelling).imp ?_
        intro rule rule' rules
        exact ⟨congrArg Tree.rule rules.key, rules.element⟩
  faults := fun _ _ => rfl

namespace Conformance

section Answers

variable {options : Options} {input : Octets}

theorem countedOptions_calls
    {grammar grammar' : Option Grammar}
    (counted : Option.Rel GrammarsCounted grammar grammar') :
    countedOptions.Calls options options grammar grammar' input :=
  ⟨rfl, Or.inl rfl, countedOptions_relates counted⟩

/-- An option is as good as a repetition of at most one round, wherever it
stands. If any options of an element and of the rules of its grammar are
written in this way, every entry point gives the same answer. -/
theorem counted_options_answer_alike :
    (∀ grammar grammar' rule rule' place,
      Option.Rel GrammarsCounted grammar grammar' →
      RulesCounted rule rule' →
      AnswersCompare (fun _ => (· = ·)) (· = ·) options options
        grammar grammar' rule rule' place place input) ∧
    (∀ left right name,
      GrammarsCounted left right →
      NamedAnswersCompare (fun _ => (· = ·)) (· = ·) options options
        left right name input) := by
  constructor
  · intro grammar grammar' rule rule' place grammars rules
    apply answersCompare_of_calls (· = ·) (countedOptions_calls grammars)
      ⟨rfl, rfl⟩ rules.element rules.name
    · intro α outcome outcome' agree
      exact agree.eq (fun _ _ => id) fun _ => id
    · intro verdict verdict' agree
      exact agree.eq (fun _ _ alike => alike.eq fun _ _ => id)
        (Failure.not_isFault fun _ => id)
  · intro left right name grammars
    apply namedAnswersCompare_of_calls (· = ·)
      (countedOptions_calls (.some grammars))
    · refine (grammars.fetch name).imp ?_
      intro rule rule' rules
      exact ⟨congrArg Tree.rule rules.key, rules.element, rules.name⟩
    · intro α outcome outcome' agree
      exact agree.eq (fun _ _ => id) fun _ => id
    · intro verdict verdict' agree
      exact agree.eq (fun _ _ alike => alike.eq fun _ _ => id)
        (Failure.not_isFault fun _ => id)

end Answers

/-- The rule `xs = [xs] "x"`, which begins with a reference to itself. -/
def optionalLeft : Rule :=
  ⟨growingLeft.name, .sequence
    [.option (.reference growingLeft.name),
      .terminal (.caseless (octets "x"))]⟩

/-- The rule `xs = *1xs "x"`. -/
def countedLeft : Rule :=
  ⟨growingLeft.name, .sequence
    [.repetition .atMostOnce (.reference growingLeft.name),
      .terminal (.caseless (octets "x"))]⟩

theorem rulesCounted_optionalLeft : RulesCounted optionalLeft countedLeft :=
  ⟨rfl, .sequence (.cons (.counted (.refl _)) (.cons (.refl _) .nil))⟩

/-- Exhaustive matching finds the same lengths with either rule, and greedy
matching does not come to an end with either. -/
theorem counted_options_answer_alike_optionalLeft :
    (matchLengths {} (some (.ofRules [countedLeft])) countedLeft.element
      (octets "xx") 0).outcome = .ok [1, 2] ∧
    (validateNamed { limit := 8 } (.ofRules [countedLeft]) (octets "xs")
      (octets "xx")).outcome = .error (.fault (.tooDeep 8)) := by
  have listed :
      (matchLengths {} (some (.ofRules [optionalLeft])) optionalLeft.element
        (octets "xx") 0).outcome = .ok [1, 2] := by
    rfl
  have endlessly :
      (validateNamed { limit := 8 } (.ofRules [optionalLeft]) (octets "xs")
        (octets "xx")).outcome = .error (.fault (.tooDeep 8)) := by
    rfl
  have grammars :
      GrammarsCounted (.ofRules [optionalLeft]) (.ofRules [countedLeft]) :=
    .cons rulesCounted_optionalLeft .nil
  have answers :=
    (@counted_options_answer_alike {} (octets "xx")).1 _ _ _ _ .tested
      (.some grammars) rulesCounted_optionalLeft
  have named :=
    (@counted_options_answer_alike { limit := 8 } (octets "xx")).2 _ _
      (octets "xs") grammars
  exact ⟨(answers.listed 0).symm.trans listed,
    named.validated.symm.trans endlessly⟩

end Conformance

end AbnfMatching
