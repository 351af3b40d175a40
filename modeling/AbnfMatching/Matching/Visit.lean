import AbnfMatching.Element.Equality
import AbnfMatching.Matching.Ends

/-!
# Places, occurrences and visits

Exhaustive matching tells equal elements apart by where they stand. A place is
given by a tree, that of the element under test or that of the rule filed under
some key, and by a number in the walk through that tree from the root to the
leaves and from left to right. An occurrence is an element at a place. A visit
is the evaluation of a place at an offset; visits are totally ordered, so that
results can be filed under them.
-/

namespace AbnfMatching

inductive Tree where
  | tested
  | rule (key : Octets)
deriving DecidableEq

/-- The key of the rule to which a tree belongs, if it belongs to one. -/
def Tree.key? : Tree → Option Octets
  | tested => none
  | rule key => some key

theorem Tree.key?_injective
    {left right : Tree} (equal : left.key? = right.key?) :
    left = right := by
  cases left <;> cases right <;> simp_all [Tree.key?]

/-- Where an element stands. -/
structure Place where
  tree : Tree
  index : Nat
deriving DecidableEq

/-- An element and the place where it stands. -/
structure Occurrence where
  tree : Tree
  index : Nat
  element : Element

namespace Place

/-- Where an element stands that belongs to nothing else. -/
def tested : Place :=
  ⟨.tested, 0⟩

/-- Where the right-hand side of the rule filed under the key stands. -/
def rule (key : Octets) : Place :=
  ⟨.rule key, 0⟩

def occurrence (place : Place) (element : Element) : Occurrence :=
  ⟨place.tree, place.index, element⟩

end Place

/-- The evaluation of a place at an offset. -/
structure Visit where
  offset : Offset
  index : Nat
  tree : Tree
deriving DecidableEq

namespace Visit

/-- Visits are ordered by offset, then by place within the tree, then by
tree. -/
def compare : Visit → Visit → Ordering :=
  compareLex (compareOn Visit.offset)
    (compareLex (compareOn Visit.index)
      (compareOn fun visit => visit.tree.key?))

instance : Std.TransCmp compare :=
  inferInstanceAs (Std.TransCmp (compareLex _ _))

instance : Std.LawfulEqCmp compare where
  eq_of_compare {left right} equal := by
    simp only [compare, compareLex, compareOn, Ordering.then_eq_eq,
      Std.LawfulEqCmp.compare_eq_iff_eq] at equal
    obtain ⟨offsets, indices, keys⟩ := equal
    have trees : left.tree = right.tree := Tree.key?_injective keys
    cases left
    cases right
    simp_all

end Visit

namespace Occurrence

def root (tree : Tree) (element : Element) : Occurrence :=
  ⟨tree, 0, element⟩

def visitAt (occurrence : Occurrence) (offset : Offset) : Visit :=
  ⟨offset, occurrence.index, occurrence.tree⟩

/-- Neighbouring elements of a tree, the first of which has the given number:
each one is numbered after all nodes of the one before it. -/
def siblings (tree : Tree) : Nat → List Element → List Occurrence
  | _, [] => []
  | index, head :: tail =>
      ⟨tree, index, head⟩ :: siblings tree (index + head.size) tail

/-- The constituents of an occurrence, numbered right after it. -/
def children (occurrence : Occurrence) : List Occurrence :=
  siblings occurrence.tree (occurrence.index + 1)
    occurrence.element.children

end Occurrence

end AbnfMatching
