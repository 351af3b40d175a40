import AbnfMatching.Element.References

/-!
# Folding the names of an element

Grammars look rules up by folded names, so it does not matter in which letter
case an element spells the names that it refers to. Two elements that differ in
nothing else fold to the same element.
-/

namespace AbnfMatching

namespace RuleName

/-- The name whose spelling is the key. -/
def folded (name : RuleName) : RuleName :=
  ⟨name.key, by simpa [key] using name.nonempty⟩

theorem folded_eq_iff {left right : RuleName} :
    left.folded = right.folded ↔ left.key = right.key := by
  simp [folded]

end RuleName

namespace Element

mutual

/-- Replace every name by the folded one. -/
def folded : Element → Element
  | .terminal value => .terminal value
  | .reference name => .reference name.folded
  | .sequence parts => .sequence (foldedOfAll parts)
  | .alternation branches => .alternation (foldedOfAll branches)
  | .option body => .option (folded body)
  | .repetition bounds body => .repetition bounds (folded body)

def foldedOfAll : List Element → List Element
  | [] => []
  | head :: tail => folded head :: foldedOfAll tail

end

theorem foldedOfAll_eq_map (elements : List Element) :
    foldedOfAll elements = elements.map folded := by
  induction elements with
  | nil =>
      rfl
  | cons head tail inductionHypothesis =>
      simp [foldedOfAll, inductionHypothesis]

mutual

@[simp]
theorem size_folded (element : Element) :
    element.folded.size = element.size := by
  cases element with
  | terminal value => rfl
  | reference name => rfl
  | sequence parts => simp [folded, size, sizeOfAll_foldedOfAll parts]
  | alternation branches =>
      simp [folded, size, sizeOfAll_foldedOfAll branches]
  | option body => simp [folded, size, size_folded body]
  | repetition bounds body => simp [folded, size, size_folded body]

theorem sizeOfAll_foldedOfAll (elements : List Element) :
    sizeOfAll (foldedOfAll elements) = sizeOfAll elements := by
  cases elements with
  | nil => rfl
  | cons head tail =>
      simp [foldedOfAll, sizeOfAll, size_folded head,
        sizeOfAll_foldedOfAll tail]

end

end Element

end AbnfMatching
