import AbnfMatching.Element.Basic

/-!
# References of an element

The names that an element refers to are listed in the order in which a walk
from left to right meets them first. Names are told apart by spelling, so `A`
and `a` are two entries although they refer to the same rule.
-/

namespace AbnfMatching.Element

mutual

/-- The names of all reference nodes, from left to right. -/
def mentions : Element → List RuleName
  | .terminal _ => []
  | .reference name => [name]
  | .sequence parts => mentionsOfAll parts
  | .alternation branches => mentionsOfAll branches
  | .option body => mentions body
  | .repetition _ body => mentions body

def mentionsOfAll : List Element → List RuleName
  | [] => []
  | head :: tail => mentions head ++ mentionsOfAll tail

end

/-- The names referred to, each spelling once. -/
def references (element : Element) : List RuleName :=
  element.mentions.eraseDups

theorem mentionsOfAll_eq_flatMap (elements : List Element) :
    mentionsOfAll elements = elements.flatMap mentions := by
  induction elements with
  | nil =>
      rfl
  | cons head tail inductionHypothesis =>
      simp [mentionsOfAll, inductionHypothesis]

theorem mentions_subset_of_mem_children
    {part element : Element} (member : part ∈ element.children) :
    part.mentions ⊆ element.mentions := by
  cases element with
  | terminal value =>
      exact absurd member List.not_mem_nil
  | reference name =>
      exact absurd member List.not_mem_nil
  | sequence parts =>
      intro name mentioned
      rw [mentions, mentionsOfAll_eq_flatMap]
      exact List.mem_flatMap.mpr ⟨part, member, mentioned⟩
  | alternation branches =>
      intro name mentioned
      rw [mentions, mentionsOfAll_eq_flatMap]
      exact List.mem_flatMap.mpr ⟨part, member, mentioned⟩
  | option body =>
      obtain rfl := List.mem_singleton.mp member
      exact List.Subset.refl _
  | repetition bounds body =>
      obtain rfl := List.mem_singleton.mp member
      exact List.Subset.refl _

@[simp]
theorem mem_references {element : Element} {name : RuleName} :
    name ∈ element.references ↔ name ∈ element.mentions := by
  simp [references]

end AbnfMatching.Element
