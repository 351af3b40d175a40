import AbnfMatching.Proofs.Exactness
import Mathlib.Data.Set.Card
import Mathlib.Order.Interval.Finset.Nat

/-!
# Nodes in reach

A match comes only to nodes of the element that it starts with and of the rules
in reach of that element. Together with the offsets of the input these nodes
make up the visits in reach, of which there are finitely many. Their number
bounds what a match can do, whatever the grammar.
-/

namespace AbnfMatching

/-! ## Nodes -/

/-- The node belongs to the element that stands at the place: the walk through
the element begins there and takes as many steps as the element has nodes. -/
def Place.Covers (place : Place) (element : Element) (node : Place) : Prop :=
  node.tree = place.tree ∧ place.index ≤ node.index ∧
    node.index < place.index + element.size

/-- The nodes that matching an element can come to: those of the element, where
it stands, and those of all rules in its reach. -/
def nodesInReach
    (grammar : Option Grammar) (place : Place) (element : Element) :
    Set Place :=
  {node | place.Covers element node ∨
    ∃ rule, Reaches grammar element rule ∧
      (Place.rule rule.key).Covers rule.element node}

/-- The number of distinct nodes of an element and of all rules in its
reach. -/
noncomputable def nodeCount
    (grammar : Option Grammar) (place : Place) (element : Element) : Nat :=
  (nodesInReach grammar place element).ncard

def rulesOf (grammar : Option Grammar) : List Rule :=
  (grammar.map Grammar.rules).getD []

/-- The nodes of an element that stands at the place. -/
def nodesAt (place : Place) (element : Element) : List Place :=
  (List.range element.size).map fun step =>
    ⟨place.tree, place.index + step⟩

section Nodes

variable {grammar : Option Grammar} {place : Place} {element : Element}

theorem mem_nodesAt_of_covers
    {node : Place} (covers : place.Covers element node) :
    node ∈ nodesAt place element := by
  obtain ⟨tree, index⟩ := node
  obtain ⟨sameTree, after, before⟩ := covers
  dsimp only at sameTree after before
  refine List.mem_map.mpr ⟨index - place.index, ?_, ?_⟩
  · exact List.mem_range.mpr (by omega)
  · rw [sameTree, Nat.add_sub_cancel' after]

theorem mem_rulesOf_of_ruleOf
    {name : RuleName} {rule : Rule}
    (meaning : ruleOf grammar name = some rule) :
    rule ∈ rulesOf grammar := by
  cases grammar with
  | none =>
      cases meaning
  | some present =>
      have found : present.find? (foldCase name.spelling) = some rule :=
        meaning
      unfold Grammar.find? at found
      exact List.mem_of_find?_eq_some found

theorem Reaches.exists_meaning
    {rule : Rule} (reaches : Reaches grammar element rule) :
    ∃ name, ruleOf grammar name = some rule := by
  cases reaches with
  | directly _ meaning => exact ⟨_, meaning⟩
  | through _ _ meaning => exact ⟨_, meaning⟩

/-- The nodes in reach are among those of the element and of all rules. -/
theorem mem_nodesAt_of_mem_nodesInReach
    {node : Place} (inReach : node ∈ nodesInReach grammar place element) :
    node ∈ nodesAt place element ++ (rulesOf grammar).flatMap
      fun rule => nodesAt (.rule rule.key) rule.element := by
  rw [List.mem_append]
  rcases inReach with own | ⟨rule, reaches, covers⟩
  · exact Or.inl (mem_nodesAt_of_covers own)
  · right
    obtain ⟨name, meaning⟩ := reaches.exists_meaning
    exact List.mem_flatMap.mpr ⟨rule, mem_rulesOf_of_ruleOf meaning,
      mem_nodesAt_of_covers covers⟩

theorem finite_nodesInReach :
    (nodesInReach grammar place element).Finite :=
  (List.finite_toSet _).subset fun _ => mem_nodesAt_of_mem_nodesInReach

/-- There are no more nodes in reach than nodes of the element and of all rules
together. -/
theorem nodeCount_le :
    nodeCount grammar place element ≤
      element.size +
        ((rulesOf grammar).map fun rule => rule.element.size).sum := by
  have total :
      (nodesAt place element ++ (rulesOf grammar).flatMap
        fun rule => nodesAt (.rule rule.key) rule.element).length =
      element.size +
        ((rulesOf grammar).map fun rule => rule.element.size).sum := by
    simp [nodesAt, List.length_flatMap]
  rw [← total]
  calc nodeCount grammar place element
      ≤ (nodesAt place element ++ (rulesOf grammar).flatMap fun rule =>
          nodesAt (.rule rule.key) rule.element).toFinset.card := by
        rw [← Set.ncard_coe_finset]
        refine Set.ncard_le_ncard ?_ (Finset.finite_toSet _)
        intro node inReach
        simpa using mem_nodesAt_of_mem_nodesInReach inReach
    _ ≤ _ := List.toFinset_card_le _

end Nodes

/-! ## Visits -/

/-- The visits of nodes in reach from an offset to the end of the input. -/
def visitsInReach
    (setting : Setting) (place : Place) (element : Element) (origin : Offset) :
    Set Visit :=
  {visit | ⟨visit.tree, visit.index⟩ ∈
      nodesInReach setting.grammar place element ∧
    origin ≤ visit.offset ∧ visit.offset.toNat ≤ setting.input.size}

/-- The number of nodes in reach times the number of offsets from the given one
to the end of an input of the given length. -/
noncomputable def visitCount
    (grammar : Option Grammar) (place : Place) (element : Element)
    (length : Nat) (origin : Offset) : Nat :=
  nodeCount grammar place element * (length - origin.toNat + 1)

section Visits

variable {setting : Setting} {place : Place} {element : Element}
  {origin : Offset}

/-- A visit as its node and its offset. -/
def Visit.coordinates (visit : Visit) : Place × Nat :=
  (⟨visit.tree, visit.index⟩, visit.offset.toNat)

theorem Visit.coordinates_injective :
    Function.Injective Visit.coordinates := by
  intro left right same
  cases left
  cases right
  simp only [coordinates, Prod.mk.injEq, Place.mk.injEq] at same
  obtain ⟨⟨rfl, rfl⟩, offsets⟩ := same
  rw [UInt64.toNat.inj offsets]

theorem coordinates_mem_of_mem_visitsInReach
    {visit : Visit}
    (inReach : visit ∈ visitsInReach setting place element origin) :
    visit.coordinates ∈ nodesInReach setting.grammar place element ×ˢ
      Set.Icc origin.toNat setting.input.size := by
  obtain ⟨node, ordered, inside⟩ := inReach
  exact ⟨node, UInt64.le_iff_toNat_le.mp ordered, inside⟩

theorem finite_visitsInReach :
    (visitsInReach setting place element origin).Finite :=
  Set.Finite.of_injOn
    (fun _ inReach => coordinates_mem_of_mem_visitsInReach inReach)
    Visit.coordinates_injective.injOn
    (finite_nodesInReach.prod (Set.finite_Icc _ _))

theorem ncard_visitsInReach_le :
    (visitsInReach setting place element origin).ncard ≤
      visitCount setting.grammar place element setting.input.size origin := by
  have offsets :
      (Set.Icc origin.toNat setting.input.size).ncard =
        setting.input.size + 1 - origin.toNat := by
    rw [← Finset.coe_Icc, Set.ncard_coe_finset, Nat.card_Icc]
  calc (visitsInReach setting place element origin).ncard
      ≤ (nodesInReach setting.grammar place element ×ˢ
          Set.Icc origin.toNat setting.input.size).ncard :=
        Set.ncard_le_ncard_of_injOn Visit.coordinates
          (fun _ inReach => coordinates_mem_of_mem_visitsInReach inReach)
          Visit.coordinates_injective.injOn
          (finite_nodesInReach.prod (Set.finite_Icc _ _))
    _ = nodeCount setting.grammar place element *
          (setting.input.size + 1 - origin.toNat) := by
        rw [Set.ncard_prod, offsets, nodeCount]
    _ ≤ _ := Nat.mul_le_mul_left _ (by omega)

/-- Different visits in reach are no more than there are. -/
theorem length_le_of_nodup
    {visits : List Visit} (nodup : visits.Nodup)
    (inReach : ∀ visit ∈ visits,
      visit ∈ visitsInReach setting place element origin) :
    visits.length ≤
      visitCount setting.grammar place element setting.input.size origin := by
  rw [← List.toFinset_card_of_nodup nodup, ← Set.ncard_coe_finset]
  refine Nat.le_trans (Set.ncard_le_ncard ?_ finite_visitsInReach)
    ncard_visitsInReach_le
  intro visit member
  exact inReach visit (by simpa using member)

end Visits

/-! ## Occurrences -/

namespace Occurrence

/-- All nodes of the occurrence belong to the element that stands at the
place. -/
def Within
    (place : Place) (element : Element) (occurrence : Occurrence) : Prop :=
  occurrence.tree = place.tree ∧ place.index ≤ occurrence.index ∧
    occurrence.index + occurrence.element.size ≤ place.index + element.size

/-- An occurrence that matching the element can come to: it is at its place,
within the element or a rule in reach, and reaches no other rules than the
element. -/
structure InReach
    (grammar : Option Grammar) (place : Place) (element : Element)
    (occurrence : Occurrence) : Prop where
  placed : occurrence.Placed grammar element
  home : occurrence.Within place element ∨
    ∃ rule, Reaches grammar element rule ∧
      occurrence.Within (.rule rule.key) rule.element
  reaches : ∀ rule, Reaches grammar occurrence.element rule →
    Reaches grammar element rule

variable {grammar : Option Grammar} {place : Place} {element : Element}
  {occurrence part : Occurrence}

theorem within_self : (place.occurrence element).Within place element :=
  ⟨rfl, Nat.le_refl _, Nat.le_refl _⟩

theorem Within.constituent
    (within : occurrence.Within place element)
    (member : part ∈ occurrence.children) :
    part.Within place element := by
  obtain ⟨sameTree, after, before⟩ := within
  have later := index_lt_of_mem_children member
  have inside := index_add_size_le_of_mem_children member
  exact ⟨(tree_eq_of_mem_children member).trans sameTree, by omega, by omega⟩

theorem Within.covers (within : occurrence.Within place element) :
    place.Covers element ⟨occurrence.tree, occurrence.index⟩ := by
  obtain ⟨sameTree, after, before⟩ := within
  have positive := occurrence.element.size_pos
  exact ⟨sameTree, after, by dsimp only; omega⟩

theorem inReach_start (holds : place.Holds grammar element) :
    (place.occurrence element).InReach grammar place element :=
  ⟨holds, Or.inl within_self, fun _ reaches => reaches⟩

theorem InReach.below
    (inReach : occurrence.InReach grammar place element)
    (below : Below grammar occurrence part) :
    part.InReach grammar place element := by
  refine ⟨inReach.placed.below below, ?_,
    fun rule reaches => inReach.reaches rule (reaches.of_below below)⟩
  cases below with
  | constituent member =>
      rcases inReach.home with own | ⟨rule, reaches, within⟩
      · exact Or.inl (own.constituent member)
      · exact Or.inr ⟨rule, reaches, within.constituent member⟩
  | @meaning name rule shape meaning =>
      have mentioned : name ∈ occurrence.element.mentions := by
        rw [shape]
        exact List.mem_singleton_self name
      exact Or.inr ⟨rule, inReach.reaches rule (.directly mentioned meaning),
        within_self⟩

theorem InReach.visit_mem
    {setting : Setting} {origin offset : Offset}
    (inReach : occurrence.InReach setting.grammar place element)
    (ordered : origin ≤ offset)
    (inside : offset.toNat ≤ setting.input.size) :
    occurrence.visitAt offset ∈ visitsInReach setting place element origin := by
  refine ⟨?_, ordered, inside⟩
  rcases inReach.home with own | ⟨rule, reaches, within⟩
  · exact Or.inl own.covers
  · exact Or.inr ⟨rule, reaches, within.covers⟩

end Occurrence

end AbnfMatching
