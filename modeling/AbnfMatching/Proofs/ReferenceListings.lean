import AbnfMatching.Proofs.Additions
import AbnfMatching.Proofs.MissingRules

/-!
# Listings of references

The references of an element are listed without repetition, in the order in
which a walk over its nodes meets them first. So are the references of a grammar
that no rule defines, where the walk goes over the rules in the order of their
keys. Spellings tell the entries of a listing apart, while folded names tell
which of them are defined.
-/

namespace AbnfMatching

/-! ## First meetings -/

section MeetsBefore

variable {α β : Type} [DecidableEq α] [DecidableEq β] {walk : List α}
  {left right : α}

/-- The walk comes to `left`, and not to `right` before. -/
def MeetsBefore (walk : List α) (left right : α) : Prop :=
  walk.idxOf left < walk.idxOf right

theorem MeetsBefore.mem (before : MeetsBefore walk left right) :
    left ∈ walk :=
  List.idxOf_lt_length_iff.mp (Nat.lt_of_lt_of_le before List.idxOf_le_length)

theorem meetsBefore_cons_iff {first : α} :
    MeetsBefore (first :: walk) left right ↔
      right ≠ first ∧ (left = first ∨ MeetsBefore walk left right) := by
  unfold MeetsBefore
  by_cases atRight : right = first
  · simp [atRight]
  · by_cases atLeft : left = first
    · simp [atLeft, List.idxOf_cons_ne _ (Ne.symm atRight), atRight]
    · simp [List.idxOf_cons_ne _ (Ne.symm atLeft),
        List.idxOf_cons_ne _ (Ne.symm atRight), atLeft, atRight]

theorem meetsBefore_append_iff {front back : List α} :
    MeetsBefore (front ++ back) left right ↔
      MeetsBefore front left right ∨
        left ∉ front ∧ right ∉ front ∧ MeetsBefore back left right := by
  have bound : ∀ item ∈ front, front.idxOf item < front.length :=
    fun item => List.idxOf_lt_length_iff.mpr
  have missed : ∀ item ∉ front, front.idxOf item = front.length :=
    fun item => List.idxOf_of_notMem
  unfold MeetsBefore
  rw [List.idxOf_append, List.idxOf_append]
  grind

/-- What a list is ordered by holds between items that it meets in turn. -/
theorem MeetsBefore.rel
    {relation : α → α → Prop}
    (before : MeetsBefore walk left right)
    (ordered : walk.Pairwise relation) (member : right ∈ walk) :
    relation left right := by
  have ordered := List.pairwise_iff_getElem.mp ordered
    (walk.idxOf left) (walk.idxOf right)
    (List.idxOf_lt_length_iff.mpr before.mem)
    (List.idxOf_lt_length_iff.mpr member) before
  simpa using ordered

/-- What is left out of a walk does not change the order of what remains. -/
theorem MeetsBefore.of_filterMap
    {select : α → Option β} {origin : β → α} {former latter : β}
    (kept : select (origin latter) = some latter)
    (ofFormer : ∀ item, select item = some former → item = origin former)
    (before : MeetsBefore (walk.filterMap select) former latter) :
    MeetsBefore walk (origin former) (origin latter) := by
  induction walk with
  | nil =>
      exact absurd before.mem List.not_mem_nil
  | cons first rest inductionHypothesis =>
      rw [meetsBefore_cons_iff]
      cases chosen : select first with
      | none =>
          rw [List.filterMap_cons_none chosen] at before
          refine ⟨?_, Or.inr (inductionHypothesis before)⟩
          rintro rfl
          cases kept.symm.trans chosen
      | some item =>
          rw [List.filterMap_cons_some chosen, meetsBefore_cons_iff] at before
          obtain ⟨differs, earlier⟩ := before
          constructor
          · rintro rfl
            exact differs (Option.some.inj (kept.symm.trans chosen))
          · refine earlier.imp ?_ inductionHypothesis
            rintro rfl
            exact (ofFormer first chosen).symm

theorem MeetsBefore.of_filter
    {keep : α → Bool} (kept : keep right = true)
    (before : MeetsBefore (walk.filter keep) left right) :
    MeetsBefore walk left right := by
  rw [← List.filterMap_eq_filter] at before
  have moved : MeetsBefore walk (id left) (id right) := by
    apply before.of_filterMap
    · simpa [Option.guard] using kept
    · intro item chosen
      exact (Option.guard_eq_some_iff.mp chosen).1
  exact moved

/-- Without repetitions, what remains of a walk is in the order of first
meetings. -/
theorem pairwise_eraseDups (walk : List α) :
    walk.eraseDups.Pairwise (MeetsBefore walk) := by
  cases walk with
  | nil =>
      exact .nil
  | cons first rest =>
      have ordered :=
        pairwise_eraseDups (rest.filter fun item => !item == first)
      have differs :
          ∀ item ∈ (rest.filter fun item => !item == first).eraseDups,
            item ≠ first := by
        intro item member
        simpa using (List.mem_filter.mp (List.mem_eraseDups.mp member)).2
      rw [List.eraseDups_cons, List.pairwise_cons]
      constructor
      · intro item member
        exact meetsBefore_cons_iff.mpr ⟨differs item member, Or.inl rfl⟩
      · refine ordered.imp_of_mem ?_
        intro former latter _ member before
        have kept := differs latter member
        exact meetsBefore_cons_iff.mpr
          ⟨kept, Or.inr (before.of_filter (by simpa using kept))⟩
termination_by walk.length
decreasing_by
  have shorter := List.length_filter_le (fun item => !item == first) rest
  rw [List.length_cons]
  omega

theorem nodup_of_pairwise_meetsBefore
    {listed : List α} (ordered : listed.Pairwise (MeetsBefore walk)) :
    listed.Nodup := by
  refine ordered.imp ?_
  rintro former _ before rfl
  exact Nat.lt_irrefl _ before

end MeetsBefore

/-! ## References of an element -/

namespace Element

/-- The name in a reference node. -/
def referenceName? : Element → Option RuleName
  | .reference name => some name
  | _ => none

theorem referenceName?_eq_some_iff {element : Element} {name : RuleName} :
    element.referenceName? = some name ↔ element = .reference name := by
  cases element <;> simp [referenceName?]

mutual

theorem mentions_eq_filterMap_nodes (element : Element) :
    element.mentions = element.nodes.filterMap referenceName? := by
  cases element with
  | terminal value => rfl
  | reference name => rfl
  | sequence parts => exact mentionsOfAll_eq_filterMap_nodes parts
  | alternation branches => exact mentionsOfAll_eq_filterMap_nodes branches
  | option body => exact mentions_eq_filterMap_nodes body
  | repetition bounds body => exact mentions_eq_filterMap_nodes body

theorem mentionsOfAll_eq_filterMap_nodes (elements : List Element) :
    mentionsOfAll elements =
      (nodesOfAll elements).filterMap referenceName? := by
  cases elements with
  | nil => rfl
  | cons head tail =>
      rw [mentionsOfAll, nodesOfAll, List.filterMap_append,
        mentions_eq_filterMap_nodes head,
        mentionsOfAll_eq_filterMap_nodes tail]

end

/-- The walk over the nodes of the element comes to a reference by the name
`left`, and not to one by the name `right` before. -/
def RefersBefore (element : Element) (left right : RuleName) : Prop :=
  MeetsBefore element.nodes (.reference left) (.reference right)

section References

variable {element : Element} {name : RuleName}

theorem reference_mem_nodes_iff :
    .reference name ∈ element.nodes ↔ name ∈ element.references := by
  simp only [mem_references, mentions_eq_filterMap_nodes, List.mem_filterMap,
    referenceName?_eq_some_iff, exists_eq_right]

theorem pairwise_references (element : Element) :
    element.references.Pairwise element.RefersBefore := by
  refine (pairwise_eraseDups element.mentions).imp ?_
  intro former latter before
  rw [mentions_eq_filterMap_nodes] at before
  exact before.of_filterMap rfl fun _ => referenceName?_eq_some_iff.mp

end References

end Element

/-! ## Undefined references of a grammar -/

namespace Grammar

/-- Of all the rules that refer to the name, the one with the least key. -/
structure FirstToRefer
    (rules : List Rule) (name : RuleName) (rule : Rule) : Prop where
  member : rule ∈ rules
  refers : .reference name ∈ rule.element.nodes
  first : ∀ other ∈ rules, .reference name ∈ other.element.nodes →
    other = rule ∨ rule.key < other.key

/-- The first rule to refer to `left` comes before the first one to refer to
`right`, or it is the same rule and refers to `left` before `right`. -/
def ListsBefore (rules : List Rule) (left right : RuleName) : Prop :=
  ∃ rule other, FirstToRefer rules left rule ∧
    FirstToRefer rules right other ∧
    (rule.key < other.key ∨
      rule = other ∧ rule.element.RefersBefore left right)

section ListsBefore

variable {rules : List Rule} {head rule : Rule} {left right name : RuleName}

theorem firstToRefer_head
    (headFirst : ∀ other ∈ rules, head.key < other.key)
    (refers : .reference name ∈ head.element.nodes) :
    FirstToRefer (head :: rules) name head := by
  refine ⟨List.mem_cons_self, refers, ?_⟩
  intro other member _
  exact (List.mem_cons.mp member).imp id (headFirst other)

theorem FirstToRefer.cons
    (silent : .reference name ∉ head.element.nodes)
    (first : FirstToRefer rules name rule) :
    FirstToRefer (head :: rules) name rule := by
  refine ⟨List.mem_cons_of_mem head first.member, first.refers, ?_⟩
  intro other member refers
  rcases List.mem_cons.mp member with rfl | later
  · exact absurd refers silent
  · exact first.first other later refers

theorem exists_firstToRefer
    (ascending : rules.Pairwise fun left right => left.key < right.key)
    (mentioned : name ∈ rules.flatMap fun rule => rule.element.references) :
    ∃ rule, FirstToRefer rules name rule := by
  induction rules with
  | nil =>
      exact absurd mentioned List.not_mem_nil
  | cons head tail inductionHypothesis =>
      obtain ⟨headFirst, tailAscending⟩ := List.pairwise_cons.mp ascending
      rw [List.flatMap_cons, List.mem_append] at mentioned
      by_cases refers : .reference name ∈ head.element.nodes
      · exact ⟨head, firstToRefer_head headFirst refers⟩
      · have later := mentioned.resolve_left
          (mt Element.reference_mem_nodes_iff.mpr refers)
        obtain ⟨rule, first⟩ := inductionHypothesis tailAscending later
        exact ⟨rule, first.cons refers⟩

theorem listsBefore_of_meetsBefore
    (ascending : rules.Pairwise fun left right => left.key < right.key)
    (mentioned : right ∈ rules.flatMap fun rule => rule.element.references)
    (before : MeetsBefore
      (rules.flatMap fun rule => rule.element.references) left right) :
    ListsBefore rules left right := by
  induction rules with
  | nil =>
      exact absurd mentioned List.not_mem_nil
  | cons head tail inductionHypothesis =>
      obtain ⟨headFirst, tailAscending⟩ := List.pairwise_cons.mp ascending
      rw [List.flatMap_cons, List.mem_append] at mentioned
      rw [List.flatMap_cons, meetsBefore_append_iff] at before
      rcases before with inHead | ⟨leftLater, rightLater, inTail⟩
      · have leftFirst := firstToRefer_head headFirst
          (Element.reference_mem_nodes_iff.mpr inHead.mem)
        refine ⟨head, ?_⟩
        by_cases refers : right ∈ head.element.references
        · have rightFirst := firstToRefer_head headFirst
            (Element.reference_mem_nodes_iff.mpr refers)
          have inOrder := inHead.rel
            (Element.pairwise_references head.element) refers
          exact ⟨head, leftFirst, rightFirst, Or.inr ⟨rfl, inOrder⟩⟩
        · obtain ⟨other, first⟩ :=
            exists_firstToRefer tailAscending (mentioned.resolve_left refers)
          have rightFirst :=
            first.cons (mt Element.reference_mem_nodes_iff.mp refers)
          exact ⟨other, leftFirst, rightFirst,
            Or.inl (headFirst other first.member)⟩
      · obtain ⟨rule, other, leftFirst, rightFirst, inOrder⟩ :=
          inductionHypothesis tailAscending
            (mentioned.resolve_left rightLater) inTail
        exact ⟨rule, other,
          leftFirst.cons (mt Element.reference_mem_nodes_iff.mp leftLater),
          rightFirst.cons (mt Element.reference_mem_nodes_iff.mp rightLater),
          inOrder⟩

end ListsBefore

section UndefinedReferences

variable {grammar : Grammar} {name : RuleName}

theorem defines_eq_false_iff :
    grammar.defines name.spelling = false ↔
      ∀ rule ∈ grammar.rules,
        foldCase rule.name.spelling ≠ foldCase name.spelling := by
  unfold defines lookup? find?
  simp [Rule.key, RuleName.key]

/-- A name is undefined in a grammar if a rule refers to it by this very
spelling and no rule has it, however spelled. -/
theorem mem_undefinedReferences_iff :
    name ∈ grammar.undefinedReferences ↔
      (∃ rule ∈ grammar.rules, .reference name ∈ rule.element.nodes) ∧
        ∀ rule ∈ grammar.rules,
          foldCase rule.name.spelling ≠ foldCase name.spelling := by
  rw [mem_undefinedReferences, defines_eq_false_iff]
  simp only [Element.reference_mem_nodes_iff, Element.mem_references]

theorem pairwise_undefinedReferences (grammar : Grammar) :
    grammar.undefinedReferences.Pairwise (ListsBefore grammar.rules) := by
  refine (pairwise_eraseDups _).imp_of_mem ?_
  intro former latter _ member before
  obtain ⟨mentioned, undefined⟩ :=
    List.mem_filter.mp (List.mem_eraseDups.mp member)
  exact listsBefore_of_meetsBefore grammar.ascending mentioned
    (before.of_filter undefined)

end UndefinedReferences

end Grammar

/-! ## Listings -/

/-- The references of an element are exactly the names in its reference nodes,
each spelling once, in the order in which a walk over the nodes comes to them.
The undefined references of a grammar are exactly the names that some rule
refers to and none has, again each spelling once, in the order of the rules and,
within a rule, of its references. After additions the rules are those that their
names have come to mean. -/
theorem listings_exact :
    (∀ element : Element,
      element.references.Nodup ∧
      (∀ name,
        name ∈ element.references ↔ .reference name ∈ element.nodes) ∧
      element.references.Pairwise element.RefersBefore) ∧
    (∀ grammar : Grammar,
      grammar.undefinedReferences.Nodup ∧
      (∀ name, name ∈ grammar.undefinedReferences ↔
        (∃ rule ∈ grammar.rules, .reference name ∈ rule.element.nodes) ∧
          ∀ rule ∈ grammar.rules,
            foldCase rule.name.spelling ≠ foldCase name.spelling) ∧
      grammar.undefinedReferences.Pairwise
        (Grammar.ListsBefore grammar.rules)) ∧
    (∀ (start : Grammar) (added : List Rule) (rule : Rule),
      rule ∈ (start.addAll added).rules ↔
        start.meaningAfter added rule.name.spelling = some rule) := by
  refine ⟨?_, ?_, ?_⟩
  · intro element
    exact ⟨nodup_of_pairwise_meetsBefore (pairwise_eraseDups _),
      fun _ => Element.reference_mem_nodes_iff.symm,
      Element.pairwise_references element⟩
  · intro grammar
    exact ⟨nodup_of_pairwise_meetsBefore (pairwise_eraseDups _),
      fun _ => Grammar.mem_undefinedReferences_iff,
      Grammar.pairwise_undefinedReferences grammar⟩
  · intro start added rule
    rw [Grammar.mem_rules_iff, Grammar.lookup?_addAll]

/-- The rules `b = c D d` and `a = d / B`, where `a` comes first. -/
example :
    (Grammar.ofRules
      [⟨.ofText "b", .sequence
        [.reference (.ofText "c"), .reference (.ofText "D"),
          .reference (.ofText "d")]⟩,
        ⟨.ofText "a", .alternation
          [.reference (.ofText "d"), .reference (.ofText "B")]⟩]
      ).undefinedReferences =
        [.ofText "d", .ofText "c", .ofText "D"] := by
  decide +kernel

end AbnfMatching
