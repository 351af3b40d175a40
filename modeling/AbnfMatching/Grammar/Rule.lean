import AbnfMatching.Element.Equality
import AbnfMatching.Element.References
import AbnfMatching.Element.Rendering

/-!
# Rules

A rule gives an element a name. The name is kept in its declared spelling,
which appears in messages; the folded spelling is the key of the rule.
-/

namespace AbnfMatching

structure Rule where
  name : RuleName
  element : Element
deriving DecidableEq, Hashable

namespace Rule

/-- The rule with a given spelling of the name; the empty spelling is
refused. -/
def ofSpelling (spelling : Octets) (element : Element) :
    Except Defect Rule := do
  return ⟨← RuleName.ofSpelling .namelessRule spelling, element⟩

/-- The key under which a grammar files the rule. -/
def key (rule : Rule) : Octets :=
  rule.name.key

/-- The definition of the rule: its name, an equals sign and its element. -/
def text (rule : Rule) : Octets :=
  rule.name.spelling ++ octets " = " ++ rule.element.text

end Rule

end AbnfMatching
