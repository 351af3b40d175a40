import AbnfMatching.Octets.Basic

/-!
# End sets

The ways in which an element can match from a fixed offset differ only in where
they end. An end set holds these offsets without repetition, in ascending
order, so that equal sets are equal values. Offsets are 64-bit words: sums of
offsets and lengths wrap around.
-/

namespace AbnfMatching

/-- A place in the input, counted in octets from its start. -/
abbrev Offset := UInt64

/-- Offsets in strictly ascending order. -/
structure Ends where
  offsets : List Offset
  ascending : offsets.Pairwise (· < ·)
deriving DecidableEq

namespace Ends

/-- Put `least` into an ascending list, where `rest` merges whatever comes
after it with the part of the list above it. -/
def place (least : Offset) (rest : List Offset → List Offset) :
    List Offset → List Offset
  | [] => least :: rest []
  | head :: tail =>
      if head < least then head :: place least rest tail
      else if least < head then least :: rest (head :: tail)
      else least :: rest tail

/-- Merge two ascending lists, keeping one copy of what they share. -/
def merge : List Offset → List Offset → List Offset
  | [], right => right
  | least :: left, right => place least (merge left) right

private theorem mem_place
    (least : Offset) (left : List Offset) {rest : List Offset → List Offset}
    (restMembers : ∀ right offset,
      offset ∈ rest right ↔ offset ∈ left ∨ offset ∈ right)
    (right : List Offset) (offset : Offset) :
    offset ∈ place least rest right ↔
      offset = least ∨ offset ∈ left ∨ offset ∈ right := by
  induction right with
  | nil =>
      simp [place, restMembers]
  | cons head tail inductionHypothesis =>
      rw [place]
      split
      · simp only [List.mem_cons, inductionHypothesis]
        grind
      · split
        · simp [restMembers]
        · next notBelow notAbove =>
            have same : head = least :=
              UInt64.le_antisymm (UInt64.not_lt.mp notAbove)
                (UInt64.not_lt.mp notBelow)
            simp only [List.mem_cons, restMembers, same]
            grind

theorem mem_merge (left right : List Offset) (offset : Offset) :
    offset ∈ merge left right ↔ offset ∈ left ∨ offset ∈ right := by
  induction left generalizing right offset with
  | nil =>
      simp [merge]
  | cons least left inductionHypothesis =>
      rw [merge, mem_place least left inductionHypothesis]
      simp [or_assoc]

private theorem pairwise_place
    (least : Offset) (left : List Offset)
    (leastFirst : ∀ offset ∈ left, least < offset)
    (ascendingMerge : ∀ right : List Offset, right.Pairwise (· < ·) →
      (merge left right).Pairwise (· < ·))
    (right : List Offset) (ascending : right.Pairwise (· < ·)) :
    (place least (merge left) right).Pairwise (· < ·) := by
  induction right with
  | nil =>
      refine List.pairwise_cons.mpr ⟨?_, ascendingMerge [] ascending⟩
      intro offset member
      rcases (mem_merge left [] offset).mp member with inLeft | inRight
      · exact leastFirst offset inLeft
      · exact absurd inRight List.not_mem_nil
  | cons head tail inductionHypothesis =>
      obtain ⟨headFirst, tailAscending⟩ := List.pairwise_cons.mp ascending
      rw [place]
      split
      · next below =>
          refine List.pairwise_cons.mpr
            ⟨?_, inductionHypothesis tailAscending⟩
          intro offset member
          rcases (mem_place least left (mem_merge left) tail offset).mp
            member with rfl | inLeft | inTail
          · exact below
          · exact UInt64.lt_trans below (leastFirst offset inLeft)
          · exact headFirst offset inTail
      · split
        · next above =>
            refine List.pairwise_cons.mpr
              ⟨?_, ascendingMerge (head :: tail) ascending⟩
            intro offset member
            rcases (mem_merge left (head :: tail) offset).mp member with
              inLeft | inRight
            · exact leastFirst offset inLeft
            · rcases List.mem_cons.mp inRight with rfl | inTail
              · exact above
              · exact UInt64.lt_trans above (headFirst offset inTail)
        · next notBelow notAbove =>
            have same : head = least :=
              UInt64.le_antisymm (UInt64.not_lt.mp notAbove)
                (UInt64.not_lt.mp notBelow)
            refine List.pairwise_cons.mpr
              ⟨?_, ascendingMerge tail tailAscending⟩
            intro offset member
            rcases (mem_merge left tail offset).mp member with
              inLeft | inTail
            · exact leastFirst offset inLeft
            · exact same ▸ headFirst offset inTail

theorem pairwise_merge
    (left right : List Offset)
    (leftAscending : left.Pairwise (· < ·))
    (rightAscending : right.Pairwise (· < ·)) :
    (merge left right).Pairwise (· < ·) := by
  induction left generalizing right with
  | nil =>
      exact rightAscending
  | cons least left inductionHypothesis =>
      obtain ⟨leastFirst, ascending⟩ := List.pairwise_cons.mp leftAscending
      exact pairwise_place least left leastFirst
        (fun other otherAscending =>
          inductionHypothesis other ascending otherAscending)
        right rightAscending

/-- There are no more ascending offsets than numbers in their range. -/
private theorem length_le_of_pairwise
    {offsets : List Offset} (ascending : offsets.Pairwise (· < ·))
    {least greatest : Nat}
    (bounded : ∀ offset ∈ offsets,
      least ≤ offset.toNat ∧ offset.toNat ≤ greatest) :
    offsets.length ≤ greatest + 1 - least := by
  induction offsets generalizing least with
  | nil =>
      exact Nat.zero_le _
  | cons head tail inductionHypothesis =>
      obtain ⟨headFirst, tailAscending⟩ := List.pairwise_cons.mp ascending
      obtain ⟨above, below⟩ := bounded head List.mem_cons_self
      have tailBounded : ∀ offset ∈ tail,
          head.toNat + 1 ≤ offset.toNat ∧ offset.toNat ≤ greatest := by
        intro offset member
        exact ⟨UInt64.lt_iff_toNat_lt.mp (headFirst offset member),
          (bounded offset (List.mem_cons_of_mem head member)).2⟩
      have shorter := inductionHypothesis tailAscending tailBounded
      rw [List.length_cons]
      omega

private theorem sublist_place
    (least : Offset) (left : List Offset) {rest : List Offset → List Offset}
    (kept : ∀ right, left.Sublist (rest right)) (right : List Offset) :
    (least :: left).Sublist (place least rest right) := by
  induction right with
  | nil =>
      exact (kept []).cons_cons least
  | cons head tail inductionHypothesis =>
      rw [place]
      split
      · exact inductionHypothesis.cons head
      · split
        · exact (kept (head :: tail)).cons_cons least
        · exact (kept tail).cons_cons least

/-- Merging leaves the offsets of the first list where they are. -/
theorem sublist_merge (left right : List Offset) :
    left.Sublist (merge left right) := by
  induction left generalizing right with
  | nil =>
      exact List.nil_sublist _
  | cons least left inductionHypothesis =>
      exact sublist_place least left inductionHypothesis right

/-- No end at all: the element does not match. -/
def none : Ends :=
  ⟨[], List.Pairwise.nil⟩

def single (offset : Offset) : Ends :=
  ⟨[offset], List.pairwise_singleton _ offset⟩

def union (left right : Ends) : Ends :=
  ⟨merge left.offsets right.offsets,
    pairwise_merge left.offsets right.offsets
      left.ascending right.ascending⟩

def isEmpty (ends : Ends) : Bool :=
  ends.offsets.isEmpty

def farthest? (ends : Ends) : Option Offset :=
  ends.offsets.getLast?

instance : Membership Offset Ends :=
  ⟨fun ends offset => offset ∈ ends.offsets⟩

instance (offset : Offset) (ends : Ends) : Decidable (offset ∈ ends) :=
  inferInstanceAs (Decidable (offset ∈ ends.offsets))

theorem mem_def {offset : Offset} {ends : Ends} :
    offset ∈ ends ↔ offset ∈ ends.offsets :=
  Iff.rfl

@[simp]
theorem not_mem_none (offset : Offset) :
    offset ∉ none := by
  simp [mem_def, none]

@[simp]
theorem mem_single {offset sole : Offset} :
    offset ∈ single sole ↔ offset = sole := by
  simp [mem_def, single]

@[simp]
theorem mem_union {offset : Offset} {left right : Ends} :
    offset ∈ left.union right ↔ offset ∈ left ∨ offset ∈ right :=
  mem_merge left.offsets right.offsets offset

/-! ## Sizes -/

section Sizes

variable {left right : Ends}

theorem eq_of_offsets_eq (same : left.offsets = right.offsets) :
    left = right := by
  cases left
  cases right
  cases same
  rfl

theorem length_le
    {ends : Ends} {least greatest : Nat}
    (bounded : ∀ offset ∈ ends,
      least ≤ offset.toNat ∧ offset.toNat ≤ greatest) :
    ends.offsets.length ≤ greatest + 1 - least :=
  length_le_of_pairwise ends.ascending bounded

/-- A union that differs from one of its parts is larger than that part. -/
theorem length_lt_length_union (grown : left.union right ≠ left) :
    left.offsets.length < (left.union right).offsets.length := by
  have kept : left.offsets.Sublist (left.union right).offsets :=
    sublist_merge left.offsets right.offsets
  apply Nat.lt_of_le_of_ne kept.length_le
  intro sameLength
  exact grown (eq_of_offsets_eq (kept.eq_of_length sameLength).symm)

/-- How many offsets are not among the ends. -/
def vacancies (ends : Ends) : Nat :=
  UInt64.size - ends.offsets.length

theorem vacancies_union_lt (grown : left.union right ≠ left) :
    (left.union right).vacancies < left.vacancies := by
  have larger := length_lt_length_union grown
  have inWords : ∀ offset ∈ left.union right,
      0 ≤ offset.toNat ∧ offset.toNat ≤ UInt64.size - 1 :=
    fun offset _ => ⟨Nat.zero_le _, Nat.le_sub_one_of_lt offset.toNat_lt⟩
  have bounded := length_le inWords
  have positive : 0 < UInt64.size := by decide
  rw [vacancies, vacancies]
  omega

end Sizes

end Ends

end AbnfMatching
