import AbnfMatching.Element.Bounds
import AbnfMatching.Element.RuleName
import AbnfMatching.Terminal.Basic

/-!
# Elements

The right-hand side of a rule is an element: a terminal, a reference to a rule,
or a sequence, alternation, option or repetition of smaller elements. Elements
are plain values. Two elements are equal exactly when they have the same shape,
the same terminals, the same bounds and the same spellings of names.
-/

namespace AbnfMatching

/-- An element of a grammar. The sequence of no parts stands for the empty
string, the alternation of no branches for nothing at all. -/
inductive Element where
  | terminal (value : Terminal)
  | reference (name : RuleName)
  | sequence (parts : List Element)
  | alternation (branches : List Element)
  | option (body : Element)
  | repetition (bounds : Bounds) (body : Element)
deriving Hashable

namespace Element

/-- The element that accepts the empty string only. -/
def empty : Element :=
  .sequence []

instance : Inhabited Element :=
  ⟨empty⟩

/-- A reference by spelling; the empty spelling is refused. -/
def ofSpelling (spelling : Octets) : Except Defect Element :=
  Element.reference <$> RuleName.ofSpelling .namelessReference spelling

/-- The range of octets between two ends as an element. -/
def ofRange (lower upper : UInt8) : Except Defect Element := do
  return .terminal (.range (← OctetRange.ofEnds lower upper))

/-- A repetition between two counts; counts out of order are refused. -/
def repeated
    (body : Element) (minimum : Nat) (maximum : Option Nat) :
    Except Defect Element := do
  return .repetition (← Bounds.ofEnds minimum maximum) body

/-- The immediate constituents, from left to right. -/
def children : Element → List Element
  | terminal _ => []
  | reference _ => []
  | sequence parts => parts
  | alternation branches => branches
  | option body => [body]
  | repetition _ body => [body]

mutual

/-- The nodes of an element in the order of a walk from left to right in which
a node comes before its constituents. -/
def nodes : Element → List Element
  | terminal value => [terminal value]
  | reference name => [reference name]
  | sequence parts => sequence parts :: nodesOfAll parts
  | alternation branches => alternation branches :: nodesOfAll branches
  | option body => option body :: nodes body
  | repetition bounds body => repetition bounds body :: nodes body

def nodesOfAll : List Element → List Element
  | [] => []
  | head :: tail => nodes head ++ nodesOfAll tail

end

mutual

def size : Element → Nat
  | terminal _ => 1
  | reference _ => 1
  | sequence parts => sizeOfAll parts + 1
  | alternation branches => sizeOfAll branches + 1
  | option body => size body + 1
  | repetition _ body => size body + 1

def sizeOfAll : List Element → Nat
  | [] => 0
  | head :: tail => size head + sizeOfAll tail

end

theorem nodesOfAll_eq_flatMap (elements : List Element) :
    nodesOfAll elements = elements.flatMap nodes := by
  induction elements with
  | nil =>
      rfl
  | cons head tail inductionHypothesis =>
      simp [nodesOfAll, inductionHypothesis]

/-- A node is followed by the walks over its constituents. -/
theorem nodes_eq_cons (element : Element) :
    element.nodes = element :: element.children.flatMap nodes := by
  cases element <;> simp [nodes, children, nodesOfAll_eq_flatMap]

theorem mem_nodes_self (element : Element) : element ∈ element.nodes := by
  rw [nodes_eq_cons]
  exact List.mem_cons_self

theorem nodes_subset_of_mem_children
    {part element : Element} (member : part ∈ element.children) :
    part.nodes ⊆ element.nodes := by
  intro node inside
  rw [nodes_eq_cons element]
  exact List.mem_cons_of_mem _ (List.mem_flatMap.mpr ⟨part, member, inside⟩)

mutual

theorem length_nodes (element : Element) :
    element.nodes.length = element.size := by
  cases element with
  | terminal value => rfl
  | reference name => rfl
  | sequence parts => simp [nodes, size, length_nodesOfAll parts]
  | alternation branches => simp [nodes, size, length_nodesOfAll branches]
  | option body => simp [nodes, size, length_nodes body]
  | repetition bounds body => simp [nodes, size, length_nodes body]

theorem length_nodesOfAll (elements : List Element) :
    (nodesOfAll elements).length = sizeOfAll elements := by
  cases elements with
  | nil => rfl
  | cons head tail =>
      simp [nodesOfAll, sizeOfAll, length_nodes head, length_nodesOfAll tail]

end

theorem size_pos (element : Element) : 0 < element.size := by
  cases element <;> simp [size]

/-- An element has one node more than its constituents together. -/
theorem sizeOfAll_children (element : Element) :
    sizeOfAll element.children + 1 = element.size := by
  cases element <;> simp [children, size, sizeOfAll]

theorem size_le_sizeOfAll
    {part : Element} {parts : List Element} (member : part ∈ parts) :
    part.size ≤ sizeOfAll parts := by
  induction parts with
  | nil =>
      cases member
  | cons head tail inductionHypothesis =>
      rw [sizeOfAll]
      rcases List.mem_cons.mp member with rfl | later
      · omega
      · have := inductionHypothesis later
        omega

/-- A constituent has fewer nodes than the whole. -/
theorem size_lt_of_mem_children
    {part element : Element} (member : part ∈ element.children) :
    part.size < element.size := by
  rw [← sizeOfAll_children element]
  exact Nat.lt_succ_of_le (size_le_sizeOfAll member)

end Element

end AbnfMatching
