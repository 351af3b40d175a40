import AbnfMatching.Proofs.Unfolding

/-!
# Places in trees

A visit names a tree and a number in it. An occurrence that a match comes across
is at its place: the walk through its tree, from the number of the occurrence
on, begins with the walk through the occurrence. The place therefore determines
the occurrence, which is why results can be filed under visits.
-/

namespace AbnfMatching

/-- The element at the root of a tree: the element under test, or the right-hand
side of the rule filed under the key. -/
def Tree.root? (grammar : Option Grammar) (subject : Element) :
    Tree → Option Element
  | .tested => some subject
  | .rule key =>
      (grammar.bind fun present => present.find? key).map Rule.element

theorem Grammar.key_of_find?
    {grammar : Grammar} {key : Octets} {rule : Rule}
    (found : grammar.find? key = some rule) :
    rule.key = key := by
  unfold find? at found
  simpa using List.find?_some found

theorem find?_of_ruleOf
    {grammar : Option Grammar} {name : RuleName} {rule : Rule}
    (meaning : ruleOf grammar name = some rule) :
    (grammar.bind fun present => present.find? rule.key) = some rule := by
  cases grammar with
  | none =>
      cases meaning
  | some present =>
      have found : present.find? (foldCase name.spelling) = some rule :=
        meaning
      rw [← Grammar.key_of_find? found] at found
      exact found

@[simp]
theorem Tree.root?_tested {grammar : Option Grammar} {subject : Element} :
    Tree.tested.root? grammar subject = some subject :=
  rfl

theorem Tree.root?_of_ruleOf
    {grammar : Option Grammar} {subject : Element} {name : RuleName}
    {rule : Rule} (meaning : ruleOf grammar name = some rule) :
    (Tree.rule rule.key).root? grammar subject = some rule.element := by
  simp only [Tree.root?, find?_of_ruleOf meaning, Option.map_some]

/-- A rule that is fetched by some spelling of its name is filed under its
key. -/
theorem Grammar.find?_key_of_fetch
    {grammar : Grammar} {name : Octets} {rule : Rule}
    (found : grammar.fetch name = .ok rule) :
    grammar.find? rule.key = some rule := by
  unfold fetch at found
  split at found
  · next filedRule filed =>
      cases found
      have named : grammar.find? (foldCase name) = some rule := filed
      rw [← key_of_find? named] at named
      exact named
  · cases found

theorem Tree.root?_of_fetch
    {grammar : Grammar} {subject : Element} {name : Octets} {rule : Rule}
    (found : grammar.fetch name = .ok rule) :
    (Tree.rule rule.key).root? (some grammar) subject =
      some rule.element := by
  simp only [Tree.root?, Option.bind_some, Grammar.find?_key_of_fetch found,
    Option.map_some]

namespace Occurrence

/-- The occurrence stands where its tree and its number say. -/
def Placed
    (grammar : Option Grammar) (subject : Element) (occurrence : Occurrence) :
    Prop :=
  ∃ root, occurrence.tree.root? grammar subject = some root ∧
    occurrence.element.nodes <+: root.nodes.drop occurrence.index

variable {grammar : Option Grammar} {subject : Element}
  {occurrence part : Occurrence}

theorem placed_root
    {tree : Tree} {element : Element}
    (rooted : tree.root? grammar subject = some element) :
    (root tree element).Placed grammar subject :=
  ⟨element, rooted, by simp [root]⟩

/-- Neighbours take up as many numbers as they have nodes. -/
theorem mem_siblings
    {tree : Tree} {index : Nat} {elements : List Element}
    (member : part ∈ siblings tree index elements) :
    part.tree = tree ∧ index ≤ part.index ∧
      part.index + part.element.size ≤
        index + Element.sizeOfAll elements := by
  induction elements generalizing index with
  | nil =>
      cases member
  | cons head tail inductionHypothesis =>
      rw [Element.sizeOfAll]
      rcases List.mem_cons.mp member with rfl | later
      · exact ⟨rfl, Nat.le_refl _, by dsimp only; omega⟩
      · obtain ⟨sameTree, after, before⟩ := inductionHypothesis later
        exact ⟨sameTree, by omega, by omega⟩

theorem tree_eq_of_mem_children (member : part ∈ occurrence.children) :
    part.tree = occurrence.tree :=
  (mem_siblings member).1

/-- Constituents are numbered after the occurrence. -/
theorem index_lt_of_mem_children (member : part ∈ occurrence.children) :
    occurrence.index < part.index :=
  (mem_siblings member).2.1

/-- The nodes of a constituent are among those of the occurrence. -/
theorem index_add_size_le_of_mem_children
    (member : part ∈ occurrence.children) :
    part.index + part.element.size ≤
      occurrence.index + occurrence.element.size := by
  have before := (mem_siblings member).2.2
  rw [← Element.sizeOfAll_children occurrence.element]
  omega

/-- Neighbours are at their places if their walks follow one another there. -/
private theorem walk_of_mem_siblings
    {tree : Tree} {index : Nat} {elements walk rest : List Element}
    (walks : elements.flatMap Element.nodes ++ rest = walk.drop index)
    (member : part ∈ siblings tree index elements) :
    part.element.nodes <+: walk.drop part.index := by
  induction elements generalizing index with
  | nil =>
      cases member
  | cons head tail inductionHypothesis =>
      rw [List.flatMap_cons, List.append_assoc] at walks
      rcases List.mem_cons.mp member with rfl | later
      · exact ⟨_, walks⟩
      · refine inductionHypothesis ?_ later
        rw [← Element.length_nodes, ← List.drop_drop, ← walks, List.drop_left]

theorem Placed.constituent
    (placed : occurrence.Placed grammar subject)
    (member : part ∈ occurrence.children) :
    part.Placed grammar subject := by
  obtain ⟨root, rooted, rest, walks⟩ := placed
  rw [Element.nodes_eq_cons, List.cons_append] at walks
  have childWalks :
      occurrence.element.children.flatMap Element.nodes ++ rest =
        root.nodes.drop (occurrence.index + 1) := by
    rw [← List.drop_drop, ← walks, List.drop_one, List.tail_cons]
  exact ⟨root, tree_eq_of_mem_children member ▸ rooted,
    walk_of_mem_siblings childWalks member⟩

theorem Placed.below
    (placed : occurrence.Placed grammar subject)
    (below : Below grammar occurrence part) :
    part.Placed grammar subject := by
  cases below with
  | constituent member => exact placed.constituent member
  | meaning _ meaning => exact placed_root (Tree.root?_of_ruleOf meaning)

/-- At a place there is one occurrence only. -/
theorem Placed.unique
    {left right : Occurrence}
    (leftPlaced : left.Placed grammar subject)
    (rightPlaced : right.Placed grammar subject)
    (sameTree : left.tree = right.tree)
    (sameIndex : left.index = right.index) :
    left = right := by
  obtain ⟨leftRoot, leftRooted, leftWalk⟩ := leftPlaced
  obtain ⟨rightRoot, rightRooted, rightWalk⟩ := rightPlaced
  rw [sameTree, rightRooted, Option.some.injEq] at leftRooted
  subst leftRooted
  rw [sameIndex, Element.nodes_eq_cons] at leftWalk
  rw [Element.nodes_eq_cons] at rightWalk
  obtain ⟨leftRest, leftEqual⟩ := leftWalk
  obtain ⟨rightRest, rightEqual⟩ := rightWalk
  have sameElement : left.element = right.element := by
    have walks := leftEqual.trans rightEqual.symm
    simp only [List.cons_append, List.cons.injEq] at walks
    exact walks.1
  cases left
  cases right
  simp_all

theorem Placed.unique_of_visitAt
    {left right : Occurrence} {offset start : Offset}
    (leftPlaced : left.Placed grammar subject)
    (rightPlaced : right.Placed grammar subject)
    (same : left.visitAt offset = right.visitAt start) :
    left = right ∧ offset = start := by
  obtain ⟨offsets, indices, trees⟩ := Visit.mk.injEq .. ▸ same
  exact ⟨leftPlaced.unique rightPlaced trees indices, offsets⟩

end Occurrence

/-- The element stands at the place, either in the tree of a rule of the grammar
or as the root of a tree of its own. -/
def Place.Holds
    (grammar : Option Grammar) (place : Place) (element : Element) : Prop :=
  (place.occurrence element).Placed grammar element

namespace Place

variable {grammar : Option Grammar} {element : Element}

theorem holds_tested : tested.Holds grammar element :=
  Occurrence.placed_root Tree.root?_tested

/-- The right-hand side of a rule that is found stands in the tree of the
rule. -/
theorem holds_of_fetch
    {present : Grammar} {name : Octets} {found : Rule}
    (fetched : present.fetch name = .ok found) :
    (rule found.key).Holds (some present) found.element :=
  Occurrence.placed_root (Tree.root?_of_fetch fetched)

end Place

end AbnfMatching
