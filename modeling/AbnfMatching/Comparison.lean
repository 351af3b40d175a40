import AbnfMatching.Octets.Basic
import Std.Data.HashSet

/-!
# Comparison of values

Several values of one type are compared with each other: which of them are
equal, whether equal ones have equal hashes, and how many different ones there
are.
-/

namespace AbnfMatching

namespace Comparison

variable {α : Type} [DecidableEq α] [Hashable α]

/-- One row for each value, which tells for each value whether the two are
equal. -/
def equalities (values : List α) : List (List Bool) :=
  values.map fun left => values.map fun right => decide (left = right)

/-- Whether any two equal values have the same hash. -/
def hashesAgree (values : List α) : Bool :=
  values.all fun left =>
    values.all fun right => left != right || hash left == hash right

def distinctCount (values : List α) : Nat :=
  (Std.HashSet.ofList values).size

end Comparison

end AbnfMatching
