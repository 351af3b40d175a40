import AbnfMatching.Proofs.Inquiry
import AbnfMatching.Proofs.LeftEdges

/-!
# A copy of a rule

The right-hand side of a rule may be tested as an element of its own, in a tree
that no reference leads back to. Grafting puts what stands in this tree into the
tree of the rule itself, where an equal element stands at the same place. An
evaluation asks the same questions in either place.
-/

namespace AbnfMatching

/-- The tree of the rule with the given key in place of the tested one. -/
def Tree.graft (key : Octets) : Tree → Tree
  | .tested => .rule key
  | .rule other => .rule other

def Visit.graft (key : Octets) (visit : Visit) : Visit :=
  { visit with tree := visit.tree.graft key }

def Occurrence.graft (key : Octets) (occurrence : Occurrence) : Occurrence :=
  { occurrence with tree := occurrence.tree.graft key }

section Graft

variable {key : Octets}

@[simp]
theorem Tree.graft_rule {other : Octets} :
    (Tree.rule other).graft key = .rule other :=
  rfl

/-- Trees of other rules stay where they are, and no other tree takes their
place. -/
theorem Tree.eq_of_graft
    {tree other : Tree} (foreign : tree.graft key ≠ .rule key)
    (same : other.graft key = tree.graft key) :
    other = tree := by
  cases tree with
  | tested =>
      exact absurd rfl foreign
  | rule name =>
      cases other with
      | tested => exact absurd same.symm foreign
      | rule name' => exact same

theorem Visit.eq_of_graft
    {visit other : Visit} (foreign : visit.tree.graft key ≠ .rule key)
    (same : other.graft key = visit.graft key) :
    other = visit := by
  obtain ⟨offsets, indices, trees⟩ := Visit.mk.injEq .. ▸ same
  have sameTree := Tree.eq_of_graft foreign trees
  cases visit
  cases other
  simp_all

theorem Tree.graft_of_foreign
    {tree : Tree} (foreign : tree.graft key ≠ .rule key) :
    tree.graft key = tree := by
  cases tree with
  | tested => exact absurd rfl foreign
  | rule name => rfl

theorem Tree.graft_of_within
    {tree : Tree} (within : tree.graft key = .rule key) :
    (tree.graft key).graft key = .rule key := by
  rw [within, graft_rule]

theorem Visit.graft_of_foreign
    {visit : Visit} (foreign : visit.tree.graft key ≠ .rule key) :
    visit.graft key = visit := by
  rw [graft, Tree.graft_of_foreign foreign]

@[simp]
theorem Occurrence.visitAt_graft {occurrence : Occurrence} {offset : Offset} :
    (occurrence.graft key).visitAt offset =
      (occurrence.visitAt offset).graft key :=
  rfl

@[simp]
theorem Occurrence.element_graft {occurrence : Occurrence} :
    (occurrence.graft key).element = occurrence.element :=
  rfl

theorem Occurrence.siblings_graft
    {tree : Tree} {index : Nat} {elements : List Element} :
    siblings (tree.graft key) index elements =
      (siblings tree index elements).map (Occurrence.graft key) := by
  induction elements generalizing index with
  | nil =>
      rfl
  | cons head tail inductionHypothesis =>
      rw [siblings, siblings, List.map_cons, inductionHypothesis]
      rfl

theorem Occurrence.children_graft
    (key : Octets) (occurrence : Occurrence) :
    (occurrence.graft key).children =
      occurrence.children.map (Occurrence.graft key) :=
  siblings_graft

end Graft

/-! ## Evaluations -/

namespace Exhaustive

variable {m : Type → Type} [Monad m] {key : Octets}

theorem inTurn_graft
    {item : Occurrence → Offset → m Ends} {occurrences : List Occurrence}
    {current : Ends} :
    inTurn item (occurrences.map (Occurrence.graft key)) current =
      inTurn (fun part => item (part.graft key)) occurrences current := by
  induction occurrences generalizing current with
  | nil =>
      rfl
  | cons head tail inductionHypothesis =>
      simp only [List.map_cons, inTurn, inductionHypothesis]

theorem anyOf_graft
    {item : Occurrence → Offset → m Ends} {occurrences : List Occurrence}
    {offset : Offset} :
    anyOf item (occurrences.map (Occurrence.graft key)) offset =
      anyOf (fun part => item (part.graft key)) occurrences offset := by
  induction occurrences with
  | nil =>
      rfl
  | cons head tail inductionHypothesis =>
      simp only [List.map_cons, anyOf, inductionHypothesis]

theorem level_graft
    [MonadLiftT (Except Fault) m] {setting : Setting}
    {below : Occurrence → Offset → m Ends} {occurrence : Occurrence}
    {offset : Offset} :
    level setting below (occurrence.graft key) offset =
      level setting (fun part => below (part.graft key)) occurrence
        offset := by
  have children := occurrence.children_graft key
  obtain ⟨tree, index, element⟩ := occurrence
  cases element with
  | sequence parts =>
      change inTurn below (Occurrence.children _) (.single offset) = _
      rw [children, inTurn_graft]
      rfl
  | alternation branches =>
      change anyOf below (Occurrence.children _) offset = _
      rw [children, anyOf_graft]
      rfl
  | _ => rfl

/-- Evaluating a grafted occurrence is carrying out the inquiry of the
occurrence itself with the answers for grafted ones. -/
theorem carryOut_inquiry_graft
    {σ : Type} {setting : Setting}
    {answer : Occurrence × Offset → ExceptT Fault (StateM σ) Ends}
    {occurrence : Occurrence} {offset : Offset} :
    (inquiry setting (occurrence.graft key) offset).carryOut answer =
      (inquiry setting occurrence offset).carryOut
        fun question => answer (question.1.graft key, question.2) := by
  have whole :=
    carryOut_inquiry (fun part start => answer (part, start)) setting
      (occurrence.graft key) offset
  have parts :=
    carryOut_inquiry (fun part start => answer (part.graft key, start))
      setting occurrence offset
  rw [level_graft] at whole
  exact whole.trans parts.symm

end Exhaustive

/-! ## Places and left edges -/

/-- The rule is filed under the key. Its right-hand side is what a copy of it
puts to the test. -/
def Copied
    (grammar : Option Grammar) (key : Octets) (rule : Rule) : Prop :=
  (grammar.bind fun present => present.find? key) = some rule

section Places

variable {grammar : Option Grammar} {key : Octets} {rule : Rule}
  {occurrence part : Occurrence}

theorem Occurrence.Placed.graft
    (copied : Copied grammar key rule)
    (placed : occurrence.Placed grammar rule.element) :
    (occurrence.graft key).Placed grammar rule.element := by
  obtain ⟨root, rooted, walks⟩ := placed
  refine ⟨root, ?_, walks⟩
  obtain ⟨tree, index, element⟩ := occurrence
  cases tree with
  | tested =>
      have filed :
          (grammar.bind fun present => present.find? key) = some rule :=
        copied
      change ((grammar.bind fun present => present.find? key).map
        Rule.element) = some root
      rw [filed]
      exact rooted
  | rule other =>
      exact rooted

theorem Below.graft
    (below : Below grammar occurrence part) :
    Below grammar (occurrence.graft key) (part.graft key) := by
  cases below with
  | constituent member =>
      apply Below.constituent
      rw [Occurrence.children_graft]
      exact List.mem_map_of_mem member
  | meaning shape meaning =>
      exact .meaning shape meaning

theorem Asks.graft
    {setting : Setting} {offset start : Offset}
    (asks : Asks setting occurrence offset (part, start)) :
    Asks setting (occurrence.graft key) offset (part.graft key, start) := by
  refine ⟨asks.below.graft, asks.ordered, asks.inside, ?_⟩
  intro graftMember atEdge name edge
  cases asks.below with
  | constituent member =>
      exact asks.atEdge member atEdge name edge
  | meaning shape meaning =>
      have childless : (occurrence.graft key).children = [] := by
        unfold Occurrence.children
        rw [Occurrence.element_graft, shape]
        rfl
      rw [childless] at graftMember
      cases graftMember

theorem EdgeStep.graft
    (step : EdgeStep grammar occurrence part) :
    EdgeStep grammar (occurrence.graft key) (part.graft key) := by
  cases step with
  | inward member edges =>
      refine .inward ?_ edges
      rw [Occurrence.children_graft]
      exact List.mem_map_of_mem member
  | across shape meaning =>
      exact .across shape meaning

theorem Encloses.graft
    {active : List Visit} {offset : Offset}
    (copied : Copied grammar key rule)
    (encloses : Encloses grammar rule.element active occurrence offset) :
    Encloses grammar rule.element (active.map (Visit.graft key))
      (occurrence.graft key) offset := by
  intro visit member
  obtain ⟨before, beforeMember, rfl⟩ := List.mem_map.mp member
  obtain ⟨outer, start, placed, rfl, ordered, leads⟩ :=
    encloses before beforeMember
  refine ⟨outer.graft key, start, placed.graft copied, rfl, ordered, ?_⟩
  intro sameOffset
  exact (leads sameOffset).lift (Occurrence.graft key)
    fun _ _ step => step.graft

/-- A chain of steps that returns to its start in the tree of the copied rule,
or in the tree of the copy, makes the rule left-recursive. -/
theorem leftRecursive_of_cycle
    (copied : Copied grammar key rule)
    (cycle : Relation.TransGen (EdgeStep grammar) occurrence occurrence)
    (within : occurrence.tree.graft key = .rule key) :
    LeftRecursive grammar rule := by
  obtain ⟨found, name, tree, meaning, recursive, _⟩ :=
    exists_leftRecursive_of_cycle cycle
  rw [tree, Tree.graft_rule, Tree.rule.injEq] at within
  have filed := find?_of_ruleOf meaning
  rw [within] at filed
  have same : rule = found := Option.some.inj (copied.symm.trans filed)
  rw [same]
  exact recursive

end Places

end AbnfMatching
