import AbnfMatching.Defect

/-!
# Repetition bounds

A repetition states how many times its operand occurs at least, and either how
many times at most or that there is no upper limit.
-/

namespace AbnfMatching

/-- The least and, if there is one, the greatest number of repetitions. -/
structure Bounds where
  minimum : Nat
  maximum : Option Nat
  minimum_le : ∀ limit ∈ maximum, minimum ≤ limit
deriving DecidableEq, Hashable

namespace Bounds

def atLeast (minimum : Nat) : Bounds :=
  ⟨minimum, none, by simp⟩

/-- The bounds with given ends, provided that they are in order. -/
def ofEnds (minimum : Nat) : Option Nat → Except Defect Bounds
  | none => .ok (atLeast minimum)
  | some maximum =>
      if ordered : minimum ≤ maximum then
        .ok ⟨minimum, some maximum, by simpa using ordered⟩
      else
        .error (.invertedBounds minimum maximum)

/-- The numbers of repetitions that the bounds allow. -/
def Allows (bounds : Bounds) (count : Nat) : Prop :=
  bounds.minimum ≤ count ∧ ∀ limit ∈ bounds.maximum, count ≤ limit

instance (bounds : Bounds) (count : Nat) :
    Decidable (bounds.Allows count) :=
  inferInstanceAs (Decidable (_ ∧ _))

/-- How many repetitions are still allowed after `done` ones, if there is an
upper limit. -/
def remaining (bounds : Bounds) (done : Nat) : Option Nat :=
  bounds.maximum.map (· - done)

section Remaining

variable {bounds : Bounds} {done : Nat}

theorem remaining_succ :
    bounds.remaining (done + 1) = (bounds.remaining done).map (· - 1) := by
  rw [remaining, remaining, Option.map_map]
  rfl

theorem maximum_of_remaining
    (within : ∀ limit ∈ bounds.maximum, done ≤ limit)
    (filled : bounds.remaining done = some 0) :
    bounds.maximum = some done := by
  obtain ⟨limit, limited, noneLeft⟩ := Option.map_eq_some_iff.mp filled
  rw [limited, Nat.le_antisymm (Nat.sub_eq_zero_iff_le.mp noneLeft)
    (within limit limited)]

theorem lt_of_remaining
    (within : ∀ limit ∈ bounds.maximum, done ≤ limit)
    (unfilled : bounds.remaining done ≠ some 0) :
    ∀ limit ∈ bounds.maximum, done < limit := by
  intro limit limited
  apply Nat.lt_of_le_of_ne (within limit limited)
  rintro rfl
  apply unfilled
  rw [remaining, Option.mem_def.mp limited, Option.map_some, Nat.sub_self]

end Remaining

/-- The bounds in front of a repeated operand: one numeral for an exact count,
otherwise the two ends around an asterisk, where a lower end of zero and an
absent upper end are left out. -/
def text (bounds : Bounds) : Octets :=
  if bounds.maximum = some bounds.minimum then
    decimal bounds.minimum
  else
    (if bounds.minimum = 0 then [] else decimal bounds.minimum) ++
      octets "*" ++
      match bounds.maximum with
      | none => []
      | some maximum => decimal maximum

end Bounds

end AbnfMatching
