import AbnfMatching.Fault
import AbnfMatching.Grammar.Rule

/-!
# Grammars

A grammar holds at most one rule for each folded name. Its rules are kept in
ascending order of their keys, octet by octet, so that two grammars with the
same rules are the same value. Adding a rule replaces the rule of the same key,
whatever the spelling of either name.
-/

namespace AbnfMatching

/-- Rules in strictly ascending order of their keys. -/
structure Grammar where
  rules : List Rule
  ascending : rules.Pairwise fun left right => left.key < right.key

namespace Grammar

/-- Insert a rule into an ascending list; a rule of the same key gives way. -/
def insertRule (rule : Rule) : List Rule → List Rule
  | [] => [rule]
  | head :: tail =>
      if rule.key < head.key then
        rule :: head :: tail
      else if rule.key = head.key then
        rule :: tail
      else
        head :: insertRule rule tail

theorem mem_of_mem_insertRule
    {rule member : Rule} {rules : List Rule}
    (inserted : member ∈ insertRule rule rules) :
    member = rule ∨ member ∈ rules := by
  induction rules with
  | nil =>
      simpa [insertRule] using inserted
  | cons head tail inductionHypothesis =>
      rw [insertRule] at inserted
      split at inserted
      · simpa using inserted
      · split at inserted
        · rcases List.mem_cons.mp inserted with new | kept
          · exact Or.inl new
          · exact Or.inr (List.mem_cons_of_mem head kept)
        · rcases List.mem_cons.mp inserted with first | later
          · exact Or.inr (first ▸ List.mem_cons_self)
          · exact (inductionHypothesis later).imp_right
              (List.mem_cons_of_mem head)

theorem pairwise_insertRule
    (rule : Rule) {rules : List Rule}
    (ascending : rules.Pairwise fun left right => left.key < right.key) :
    (insertRule rule rules).Pairwise
      fun left right => left.key < right.key := by
  induction rules with
  | nil =>
      simp [insertRule]
  | cons head tail inductionHypothesis =>
      obtain ⟨headFirst, tailAscending⟩ := List.pairwise_cons.mp ascending
      rw [insertRule]
      split
      · next before =>
          refine List.pairwise_cons.mpr ⟨?_, ascending⟩
          intro member memberOf
          rcases List.mem_cons.mp memberOf with rfl | later
          · exact before
          · exact List.lt_trans before (headFirst member later)
      · next notBefore =>
          split
          · next same =>
              refine List.pairwise_cons.mpr ⟨?_, tailAscending⟩
              intro member later
              exact same ▸ headFirst member later
          · next different =>
              have after : head.key < rule.key := by
                rcases List.le_iff_lt_or_eq.mp (List.not_lt.mp notBefore) with
                  strict | equal
                · exact strict
                · exact absurd equal.symm different
              refine List.pairwise_cons.mpr
                ⟨?_, inductionHypothesis tailAscending⟩
              intro member inserted
              rcases mem_of_mem_insertRule inserted with rfl | later
              · exact after
              · exact headFirst member later

def empty : Grammar :=
  ⟨[], List.Pairwise.nil⟩

/-- Add a rule, replacing the rule of the same key if there is one. -/
def add (grammar : Grammar) (rule : Rule) : Grammar :=
  ⟨insertRule rule grammar.rules,
    pairwise_insertRule rule grammar.ascending⟩

def addAll (grammar : Grammar) (rules : List Rule) : Grammar :=
  rules.foldl add grammar

/-- The grammar of several rules; of two rules with the same key the later one
counts. -/
def ofRules (rules : List Rule) : Grammar :=
  empty.addAll rules

def find? (grammar : Grammar) (key : Octets) : Option Rule :=
  grammar.rules.find? fun rule => rule.key == key

private theorem find?_insertRule
    (rule : Rule) (rules : List Rule) (key : Octets) :
    (insertRule rule rules).find? (fun member => member.key == key) =
      if rule.key = key then some rule
      else rules.find? fun member => member.key == key := by
  induction rules with
  | nil =>
      by_cases same : rule.key = key <;> simp [insertRule, same]
  | cons head tail inductionHypothesis =>
      rw [insertRule]
      split
      · by_cases same : rule.key = key <;> simp [List.find?_cons, same]
      · split
        · next replaced =>
            by_cases same : rule.key = key
            · simp [same]
            · have headDiffers : head.key ≠ key := replaced ▸ same
              simp [same, headDiffers]
        · next different =>
            by_cases first : head.key = key
            · have ruleDiffers : rule.key ≠ key := by
                intro same
                exact different (same.trans first.symm)
              simp [first, ruleDiffers]
            · simp [first, inductionHypothesis]

/-- After an addition the new rule is found under its key, and under any other
key what was found there before. -/
theorem find?_add (grammar : Grammar) (rule : Rule) (key : Octets) :
    (grammar.add rule).find? key =
      if rule.key = key then some rule else grammar.find? key :=
  find?_insertRule rule grammar.rules key

@[simp]
theorem find?_empty (key : Octets) :
    empty.find? key = none :=
  rfl

/-- The rule of a name, however the name is spelled. -/
def lookup? (grammar : Grammar) (spelling : Octets) : Option Rule :=
  grammar.find? (foldCase spelling)

def defines (grammar : Grammar) (spelling : Octets) : Bool :=
  (grammar.lookup? spelling).isSome

/-- The rule of a name, or the fault that there is none. -/
def fetch (grammar : Grammar) (spelling : Octets) : Except Fault Rule :=
  match grammar.lookup? spelling with
  | some rule => .ok rule
  | none => .error (.undefinedRule spelling)

def size (grammar : Grammar) : Nat :=
  grammar.rules.length

def isEmpty (grammar : Grammar) : Bool :=
  grammar.rules.isEmpty

/-- The declared spellings, in the order of the keys. -/
def names (grammar : Grammar) : List RuleName :=
  grammar.rules.map Rule.name

def keys (grammar : Grammar) : List Octets :=
  grammar.rules.map Rule.key

/-- The names that some rule refers to and no rule defines, each spelling once:
in the order of the referring rules and, within a rule, as its element mentions
them. -/
def undefinedReferences (grammar : Grammar) : List RuleName :=
  let mentioned := grammar.rules.flatMap fun rule => rule.element.references
  (mentioned.filter fun name => !grammar.defines name.spelling).eraseDups

end Grammar

end AbnfMatching
