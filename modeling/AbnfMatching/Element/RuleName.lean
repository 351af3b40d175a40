import AbnfMatching.Defect
import AbnfMatching.Octets.Fold

/-!
# Rule names

A rule name is a nonempty octet string. The spelling is kept as it was given,
while grammars look rules up by the folded spelling, the key of the name.
-/

namespace AbnfMatching

/-- The nonempty spelling of a rule name. -/
structure RuleName where
  spelling : Octets
  nonempty : spelling ≠ []
deriving DecidableEq, Hashable

namespace RuleName

/-- The name with a given spelling; an empty spelling is answered by the
defect. -/
def ofSpelling (defect : Defect) (spelling : Octets) :
    Except Defect RuleName :=
  if empty : spelling = [] then .error defect
  else .ok ⟨spelling, empty⟩

/-- The folded spelling, under which a grammar files the rule. -/
def key (name : RuleName) : Octets :=
  foldCase name.spelling

def ofText (text : String)
    (nonempty : octets text ≠ [] := by decide) : RuleName :=
  ⟨octets text, nonempty⟩

end RuleName

end AbnfMatching
