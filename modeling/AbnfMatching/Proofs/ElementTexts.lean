import AbnfMatching.Proofs.TerminalTexts
import AbnfMatching.Element.References

/-!
# What the text of an element tells

Up to the normal form, an element can be told from its text, provided that the
names in it are plain and that no repetition is repeated directly. The first
octet of an operand gives its kind away; a group ends at the parenthesis that
belongs to it, because what is inside never begins with a closing bracket or a
slash.

Bounds stand directly before the operand and a repetition is not parenthesised,
so the bounds of two nested repetitions run together: this is why they have to
be kept apart.
-/

namespace AbnfMatching

namespace Element

/-! ## Induction on constituents -/

theorem sizeOf_lt_of_mem_children
    {part element : Element} (member : part ∈ element.children) :
    sizeOf part < sizeOf element := by
  cases element with
  | terminal value =>
      cases member
  | reference name =>
      cases member
  | sequence parts =>
      have smaller := List.sizeOf_lt_of_mem member
      simp only [sequence.sizeOf_spec]
      simp only [children] at smaller
      omega
  | alternation branches =>
      have smaller := List.sizeOf_lt_of_mem member
      simp only [alternation.sizeOf_spec]
      simp only [children] at smaller
      omega
  | option body =>
      cases List.mem_singleton.mp member
      simp only [option.sizeOf_spec]
      omega
  | repetition bounds body =>
      cases List.mem_singleton.mp member
      simp only [repetition.sizeOf_spec]
      omega

/-- What passes from all constituents to the element holds of every element. -/
theorem induction_on_children
    {motive : Element → Prop}
    (step : ∀ element,
      (∀ part ∈ element.children, motive part) → motive element)
    (element : Element) :
    motive element :=
  step element fun part _ => induction_on_children step part
termination_by sizeOf element
decreasing_by exact sizeOf_lt_of_mem_children ‹_›

/-! ## Groups of one constituent -/

/-- Take off all groups of one constituent. They leave no trace in the text of
an operand, and the sequence of no parts is written like the empty literal. -/
def peeled : Element → Element
  | .sequence [] => .terminal (.caseless [])
  | .sequence [part] => part.peeled
  | .alternation [branch] => branch.peeled
  | element => element

/-- The names are plain, and no repetition is repeated directly, be it inside
groups of one constituent. -/
structure Legible (element : Element) : Prop where
  plain : ∀ name ∈ element.mentions, name.IsPlain
  apart : ∀ bounds body, .repetition bounds body ∈ element.nodes →
    ∀ inner core, body.normal ≠ .repetition inner core

/-- The two ways of joining several constituents. -/
inductive Joint where
  | sequence
  | alternation

def Joint.separator : Joint → Octets
  | sequence => octets " "
  | alternation => octets " / "

def Joint.element : Joint → List Element → Element
  | sequence, parts => .sequence parts
  | alternation, branches => .alternation branches

/-- The forms of an element from which groups of one constituent have been
taken off. -/
inductive Form : Element → Prop
  | terminal (value : Terminal) : Form (.terminal value)
  | reference (name : RuleName) : Form (.reference name)
  | option (body : Element) : Form (.option body)
  | repetition (bounds : Bounds) (body : Element) :
      Form (.repetition bounds body)
  | nothing : Form (.alternation [])
  | group (joint : Joint) (first next : Element) (more : List Element) :
      Form (joint.element (first :: next :: more))

section Forms

variable {element constituent : Element}

theorem Legible.part
    (legible : element.Legible) (member : constituent ∈ element.children) :
    constituent.Legible := by
  refine ⟨?_, ?_⟩
  · intro name mentioned
    exact legible.plain name (mentions_subset_of_mem_children member mentioned)
  · intro bounds body inside
    exact legible.apart bounds body (nodes_subset_of_mem_children member inside)

theorem form_peeled (element : Element) : element.peeled.Form := by
  fun_induction peeled element with
  | case1 => exact .terminal _
  | case2 part inductionHypothesis => exact inductionHypothesis
  | case3 branch inductionHypothesis => exact inductionHypothesis
  | case4 element notEmpty notSingle notSole =>
      match element with
      | .terminal value => exact .terminal value
      | .reference name => exact .reference name
      | .sequence [] => exact absurd rfl notEmpty
      | .sequence [part] => exact absurd rfl (notSingle part)
      | .sequence (first :: next :: more) =>
          exact .group .sequence first next more
      | .alternation [] => exact .nothing
      | .alternation [branch] => exact absurd rfl (notSole branch)
      | .alternation (first :: next :: more) =>
          exact .group .alternation first next more
      | .option body => exact .option body
      | .repetition bounds body => exact .repetition bounds body

theorem operandText_singleton (joint : Joint) (part : Element) :
    (joint.element [part]).operandText = part.operandText := by
  cases joint <;>
    simp [operandText, Joint.element, grouped, isGroup, text, operandTexts,
      List.intercalate]

theorem text_singleton (joint : Joint) (part : Element) :
    (joint.element [part]).text = part.operandText := by
  cases joint <;>
    simp [operandText, Joint.element, text, operandTexts, List.intercalate]

theorem normal_singleton (joint : Joint) (part : Element) :
    (joint.element [part]).normal = part.normal := by
  cases joint <;> rfl

theorem operandText_peeled (element : Element) :
    element.peeled.operandText = element.operandText := by
  fun_induction peeled element with
  | case1 => decide
  | case2 part inductionHypothesis =>
      exact inductionHypothesis.trans
        (operandText_singleton .sequence part).symm
  | case3 branch inductionHypothesis =>
      exact inductionHypothesis.trans
        (operandText_singleton .alternation branch).symm
  | case4 => rfl

theorem normal_peeled (element : Element) :
    element.peeled.normal = element.normal := by
  fun_induction peeled element with
  | case1 => rfl
  | case2 part inductionHypothesis => exact inductionHypothesis
  | case3 branch inductionHypothesis => exact inductionHypothesis
  | case4 => rfl

theorem Legible.peeled
    (legible : element.Legible) : element.peeled.Legible := by
  fun_induction Element.peeled element with
  | case1 => exact ⟨by simp [mentions], by simp [nodes]⟩
  | case2 part inductionHypothesis =>
      exact inductionHypothesis (legible.part (List.mem_singleton_self part))
  | case3 branch inductionHypothesis =>
      exact inductionHypothesis (legible.part (List.mem_singleton_self branch))
  | case4 => exact legible

end Forms

/-! ## Joined operands -/

/-- The texts of operands, each behind the separator. -/
def behind (separator : Octets) (operands : List Element) : Octets :=
  operands.flatMap fun operand => separator ++ operand.operandText

theorem text_joint (joint : Joint) (first : Element) (more : List Element) :
    (joint.element (first :: more)).text =
      first.operandText ++ behind joint.separator more := by
  cases joint <;>
    simp [Joint.element, text, operandTexts_eq_map, intercalate_cons,
      List.flatMap_map, behind, Joint.separator]

theorem operandText_group
    (joint : Joint) (first next : Element) (more : List Element) :
    (joint.element (first :: next :: more)).operandText =
      octets "( " ++ (joint.element (first :: next :: more)).text ++
        octets " )" := by
  cases joint <;> simp [operandText, grouped, Joint.element, isGroup]

theorem normal_group
    (joint : Joint) (first next : Element) (more : List Element) :
    (joint.element (first :: next :: more)).normal =
      joint.element (first.normal :: next.normal :: more.map normal) := by
  cases joint <;>
    simp [Joint.element, normal, normalOfAll, normalOfAll_eq_map,
      normalSequence, normalAlternation]

end Element

end AbnfMatching
