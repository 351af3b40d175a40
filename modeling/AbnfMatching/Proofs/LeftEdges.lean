import AbnfMatching.Language.Reachability
import AbnfMatching.Proofs.LevelBounds
import AbnfMatching.Proofs.Places

/-!
# Visits within visits at one offset

While a visit is under way, the visits made for it begin where it begins or
later. A visit that begins where an earlier one began is reached from that one
along the left edge, step by step. A chain of such steps stays in one tree,
where it leads downwards, or enters rules that begin with each other. It can
therefore return to its start only in the tree of a left-recursive rule.
-/

namespace AbnfMatching

/-! ## Steps along the left edge -/

/-- A step to an occurrence right below that may be visited at the same
offset. -/
inductive EdgeStep (grammar : Option Grammar) (occurrence : Occurrence) :
    Occurrence → Prop
  | inward {part : Occurrence} :
      part ∈ occurrence.children →
      (∀ name, LeftEdge grammar part.element name →
        LeftEdge grammar occurrence.element name) →
      EdgeStep grammar occurrence part
  | across {name : RuleName} {rule : Rule} :
      occurrence.element = .reference name →
      ruleOf grammar name = some rule →
      EdgeStep grammar occurrence (.root (.rule rule.key) rule.element)

theorem Asks.edgeStep
    {setting : Setting} {occurrence part : Occurrence} {offset : Offset}
    (asks : Asks setting occurrence offset (part, offset)) :
    EdgeStep setting.grammar occurrence part := by
  cases asks.below with
  | constituent member =>
      exact .inward member (asks.atEdge member rfl)
  | meaning shape meaning =>
      exact .across shape meaning

/-- An occurrence in the tree of a rule of the grammar, where it has nothing at
its left edge that the rule has not. -/
structure Entered
    (grammar : Option Grammar) (rule : Rule) (occurrence : Occurrence) :
    Prop where
  defined : ∃ name, ruleOf grammar name = some rule
  tree : occurrence.tree = .rule rule.key
  edges : ∀ name, LeftEdge grammar occurrence.element name →
    LeftEdge grammar rule.element name

/-- Where steps along the left edge lead: further down in the same tree, or
into the tree of a rule that stands at the left edge. -/
inductive Leads
    (grammar : Option Grammar) (occurrence part : Occurrence) : Prop
  | down :
      part.tree = occurrence.tree →
      occurrence.index < part.index →
      (∀ name, LeftEdge grammar part.element name →
        LeftEdge grammar occurrence.element name) →
      Leads grammar occurrence part
  | into {name : RuleName} {first last : Rule} :
      LeftEdge grammar occurrence.element name →
      ruleOf grammar name = some first →
      Relation.ReflTransGen (BeginsWith grammar) first last →
      Entered grammar last part →
      Leads grammar occurrence part

section Steps

variable {grammar : Option Grammar} {occurrence part : Occurrence}

theorem entered_root
    {name : RuleName} {rule : Rule}
    (meaning : ruleOf grammar name = some rule) :
    Entered grammar rule (.root (.rule rule.key) rule.element) :=
  ⟨⟨name, meaning⟩, rfl, fun _ edge => edge⟩

theorem leads_of_edgeStep (step : EdgeStep grammar occurrence part) :
    Leads grammar occurrence part := by
  cases step with
  | inward member edges =>
      exact .down (Occurrence.tree_eq_of_mem_children member)
        (Occurrence.index_lt_of_mem_children member) edges
  | across shape meaning =>
      refine .into ?_ meaning .refl (entered_root meaning)
      rw [shape]
      exact .reference _

theorem Leads.step
    {next : Occurrence}
    (leads : Leads grammar occurrence part)
    (step : EdgeStep grammar part next) :
    Leads grammar occurrence next := by
  cases step with
  | inward member edges =>
      have sameTree := Occurrence.tree_eq_of_mem_children member
      cases leads with
      | down tree further partEdges =>
          have deeper := Occurrence.index_lt_of_mem_children member
          exact .down (sameTree.trans tree) (by omega)
            fun name edge => partEdges name (edges name edge)
      | into edge meaning chain entered =>
          exact .into edge meaning chain
            ⟨entered.defined, sameTree.trans entered.tree,
              fun name nextEdge =>
                entered.edges name (edges name nextEdge)⟩
  | @across name rule shape meaning =>
      have atEdge : LeftEdge grammar part.element name := by
        rw [shape]
        exact .reference name
      cases leads with
      | down _ _ partEdges =>
          exact .into (partEdges name atEdge) meaning .refl
            (entered_root meaning)
      | into edge firstMeaning chain entered =>
          have begins : BeginsWith grammar _ rule :=
            ⟨name, entered.edges name atEdge, meaning⟩
          exact .into edge firstMeaning (chain.tail begins)
            (entered_root meaning)

theorem leads_of_transGen
    (steps : Relation.TransGen (EdgeStep grammar) occurrence part) :
    Leads grammar occurrence part := by
  induction steps with
  | single step => exact leads_of_edgeStep step
  | tail _ step inductionHypothesis => exact inductionHypothesis.step step

/-- A chain of steps that returns to its start runs through the tree of a rule
that begins with itself. -/
theorem exists_leftRecursive_of_cycle
    (cycle : Relation.TransGen (EdgeStep grammar) occurrence occurrence) :
    ∃ rule name, occurrence.tree = .rule rule.key ∧
      ruleOf grammar name = some rule ∧ LeftRecursive grammar rule ∧
      Reaches grammar occurrence.element rule := by
  cases leads_of_transGen cycle with
  | down _ further _ =>
      exact absurd further (Nat.lt_irrefl _)
  | @into name first last edge meaning chain entered =>
      obtain ⟨lastName, lastMeaning⟩ := entered.defined
      refine ⟨last, lastName, entered.tree, lastMeaning, ?_, ?_⟩
      · exact .head' ⟨name, entered.edges name edge, meaning⟩ chain
      · clear entered lastMeaning
        induction chain with
        | refl =>
            exact .directly edge.mem_mentions meaning
        | tail _ begins inductionHypothesis =>
            obtain ⟨next, nextEdge, nextMeaning⟩ := begins
            exact .through inductionHypothesis nextEdge.mem_mentions
              nextMeaning

end Steps

/-! ## Enclosing visits -/

/-- Visits that enclose an occurrence at an offset: they begin no later than
there, and those that begin right there lead to the occurrence along the left
edge. -/
def Encloses
    (grammar : Option Grammar) (subject : Element) (active : List Visit)
    (occurrence : Occurrence) (offset : Offset) : Prop :=
  ∀ visit ∈ active, ∃ outer start, outer.Placed grammar subject ∧
    outer.visitAt start = visit ∧ start ≤ offset ∧
    (start = offset →
      Relation.TransGen (EdgeStep grammar) outer occurrence)

theorem encloses_nil
    {grammar : Option Grammar} {subject : Element} {occurrence : Occurrence}
    {offset : Offset} :
    Encloses grammar subject [] occurrence offset :=
  fun _ member => absurd member List.not_mem_nil

/-- A visit that is made for another one is enclosed by it and by the visits
that enclose it. -/
theorem Encloses.asked
    {setting : Setting} {subject : Element} {active : List Visit}
    {occurrence : Occurrence} {offset : Offset}
    {question : Occurrence × Offset}
    (encloses : Encloses setting.grammar subject active occurrence offset)
    (placed : occurrence.Placed setting.grammar subject)
    (asks : Asks setting occurrence offset question) :
    Encloses setting.grammar subject (occurrence.visitAt offset :: active)
      question.1 question.2 := by
  obtain ⟨part, start⟩ := question
  intro visit member
  rcases List.mem_cons.mp member with rfl | outside
  · refine ⟨occurrence, offset, placed, rfl, asks.ordered, ?_⟩
    intro sameOffset
    subst sameOffset
    exact .single asks.edgeStep
  · obtain ⟨outer, begin, outerPlaced, same, ordered, leads⟩ :=
      encloses visit outside
    refine ⟨outer, begin, outerPlaced, same,
      UInt64.le_trans ordered asks.ordered, ?_⟩
    intro sameOffset
    subst sameOffset
    obtain rfl : begin = offset := UInt64.le_antisymm ordered asks.ordered
    exact (leads rfl).tail asks.edgeStep

/-- A visit that is met again while it is under way has led to itself. -/
theorem Encloses.cycle
    {grammar : Option Grammar} {subject : Element} {active : List Visit}
    {occurrence : Occurrence} {offset : Offset}
    (encloses : Encloses grammar subject active occurrence offset)
    (placed : occurrence.Placed grammar subject)
    (again : occurrence.visitAt offset ∈ active) :
    Relation.TransGen (EdgeStep grammar) occurrence occurrence := by
  obtain ⟨outer, start, outerPlaced, same, _, leads⟩ := encloses _ again
  obtain ⟨rfl, rfl⟩ := outerPlaced.unique_of_visitAt placed same
  exact leads rfl

/-- A visit that asks for a visit under way, or for itself, has led to
itself. -/
theorem Encloses.cycle_of_asked
    {setting : Setting} {subject : Element} {active : List Visit}
    {occurrence : Occurrence} {offset : Offset}
    {question : Occurrence × Offset}
    (encloses : Encloses setting.grammar subject active occurrence offset)
    (placed : occurrence.Placed setting.grammar subject)
    (asks : Asks setting occurrence offset question)
    (again : question.1.visitAt question.2 ∈
      occurrence.visitAt offset :: active) :
    Relation.TransGen (EdgeStep setting.grammar) occurrence occurrence := by
  obtain ⟨part, start⟩ := question
  have partPlaced : part.Placed setting.grammar subject :=
    placed.below asks.below
  rcases List.mem_cons.mp again with own | outside
  · obtain ⟨rfl, rfl⟩ := partPlaced.unique_of_visitAt placed own
    exact .single asks.edgeStep
  · obtain ⟨outer, begin, outerPlaced, same, ordered, leads⟩ :=
      encloses _ outside
    obtain ⟨rfl, rfl⟩ := outerPlaced.unique_of_visitAt partPlaced same
    obtain rfl : begin = offset := UInt64.le_antisymm ordered asks.ordered
    exact .head asks.edgeStep (leads rfl)

end AbnfMatching
