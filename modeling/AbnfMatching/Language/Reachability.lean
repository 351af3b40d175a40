import AbnfMatching.Language.Basic

/-!
# Reachable rules and left recursion

A rule is reachable from an element if the element mentions it or if it is
mentioned by a rule that is reachable already. A rule stands at the left edge
of an element if a derivation can come to a reference to it before any octet
has been consumed. A rule that stands at its own left edge, directly or through
other rules, is left-recursive.
-/

namespace AbnfMatching

/-- `Reaches grammar element rule` says that references lead from the element
to the rule in one or more steps. -/
inductive Reaches (grammar : Option Grammar) (element : Element) :
    Rule → Prop
  | directly {name : RuleName} {rule : Rule} :
      name ∈ element.mentions →
      ruleOf grammar name = some rule →
      Reaches grammar element rule
  | through {middle rule : Rule} {name : RuleName} :
      Reaches grammar element middle →
      name ∈ middle.element.mentions →
      ruleOf grammar name = some rule →
      Reaches grammar element rule

/-- `LeftEdge grammar element name` says that a reference by `name` stands in
`element` where it can be met before any octet has been consumed: whatever
comes before it derives the empty string. -/
inductive LeftEdge (grammar : Option Grammar) : Element → RuleName → Prop
  | reference (name : RuleName) :
      LeftEdge grammar (.reference name) name
  | head {head : Element} {tail : List Element} {name : RuleName} :
      LeftEdge grammar head name →
      LeftEdge grammar (.sequence (head :: tail)) name
  | tail {head : Element} {tail : List Element} {name : RuleName} :
      Derives grammar head [] →
      LeftEdge grammar (.sequence tail) name →
      LeftEdge grammar (.sequence (head :: tail)) name
  | branch {branch : Element} {branches : List Element} {name : RuleName} :
      branch ∈ branches →
      LeftEdge grammar branch name →
      LeftEdge grammar (.alternation branches) name
  | option {body : Element} {name : RuleName} :
      LeftEdge grammar body name →
      LeftEdge grammar (.option body) name
  | repetition {bounds : Bounds} {body : Element} {name : RuleName} :
      bounds.maximum ≠ some 0 →
      LeftEdge grammar body name →
      LeftEdge grammar (.repetition bounds body) name

def BeginsWith (grammar : Option Grammar) (rule next : Rule) : Prop :=
  ∃ name, LeftEdge grammar rule.element name ∧
    ruleOf grammar name = some next

/-- A rule that stands at its own left edge in one or more steps. -/
def LeftRecursive (grammar : Option Grammar) (rule : Rule) : Prop :=
  Relation.TransGen (BeginsWith grammar) rule rule

/-- No rule that is reachable from the element is left-recursive. -/
def FreeOfLeftRecursion (grammar : Option Grammar) (element : Element) :
    Prop :=
  ∀ rule, Reaches grammar element rule → ¬ LeftRecursive grammar rule

variable {grammar : Option Grammar}

theorem LeftEdge.mem_mentions
    {element : Element} {name : RuleName}
    (edge : LeftEdge grammar element name) :
    name ∈ element.mentions := by
  induction edge with
  | reference name =>
      simp [Element.mentions]
  | head _ inductionHypothesis =>
      simp [Element.mentions, Element.mentionsOfAll, inductionHypothesis]
  | tail _ _ inductionHypothesis =>
      have later := inductionHypothesis
      simp only [Element.mentions] at later
      simp [Element.mentions, Element.mentionsOfAll, later]
  | branch member _ inductionHypothesis =>
      simp only [Element.mentions, Element.mentionsOfAll_eq_flatMap]
      exact List.mem_flatMap.mpr ⟨_, member, inductionHypothesis⟩
  | option _ inductionHypothesis =>
      simpa [Element.mentions] using inductionHypothesis
  | repetition _ _ inductionHypothesis =>
      simpa [Element.mentions] using inductionHypothesis

end AbnfMatching
