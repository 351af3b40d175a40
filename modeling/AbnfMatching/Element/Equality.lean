import AbnfMatching.Element.Basic

/-!
# Equality of elements

Equality of elements is decided by comparing both trees from the root down.
-/

namespace AbnfMatching.Element

mutual

def decideEqual : (left right : Element) → Decidable (left = right)
  | .terminal left, .terminal right =>
      decidable_of_iff (left = right) (by simp)
  | .reference left, .reference right =>
      decidable_of_iff (left = right) (by simp)
  | .sequence left, .sequence right =>
      match decideEqualAll left right with
      | isTrue equal => isTrue (by rw [equal])
      | isFalse different => isFalse (by simpa using different)
  | .alternation left, .alternation right =>
      match decideEqualAll left right with
      | isTrue equal => isTrue (by rw [equal])
      | isFalse different => isFalse (by simpa using different)
  | .option left, .option right =>
      match decideEqual left right with
      | isTrue equal => isTrue (by rw [equal])
      | isFalse different => isFalse (by simpa using different)
  | .repetition leftBounds left, .repetition rightBounds right =>
      match decideEqual left right with
      | isTrue equal =>
          decidable_of_iff (leftBounds = rightBounds) (by simp [equal])
      | isFalse different => isFalse (by simp [different])
  | .terminal _, .reference _ | .terminal _, .sequence _
  | .terminal _, .alternation _ | .terminal _, .option _
  | .terminal _, .repetition .. | .reference _, .terminal _
  | .reference _, .sequence _ | .reference _, .alternation _
  | .reference _, .option _ | .reference _, .repetition ..
  | .sequence _, .terminal _ | .sequence _, .reference _
  | .sequence _, .alternation _ | .sequence _, .option _
  | .sequence _, .repetition .. | .alternation _, .terminal _
  | .alternation _, .reference _ | .alternation _, .sequence _
  | .alternation _, .option _ | .alternation _, .repetition ..
  | .option _, .terminal _ | .option _, .reference _
  | .option _, .sequence _ | .option _, .alternation _
  | .option _, .repetition .. | .repetition .., .terminal _
  | .repetition .., .reference _ | .repetition .., .sequence _
  | .repetition .., .alternation _ | .repetition .., .option _ =>
      isFalse (by simp)

def decideEqualAll : (left right : List Element) → Decidable (left = right)
  | [], [] => isTrue rfl
  | [], _ :: _ | _ :: _, [] => isFalse (by simp)
  | leftHead :: left, rightHead :: right =>
      match decideEqual leftHead rightHead with
      | isTrue equal =>
          match decideEqualAll left right with
          | isTrue same => isTrue (by rw [equal, same])
          | isFalse different => isFalse (by simp [different])
      | isFalse different => isFalse (by simp [different])

end

instance : DecidableEq Element :=
  decideEqual

end AbnfMatching.Element
