import AbnfMatching.Element.Basic
import AbnfMatching.Terminal.Rendering

/-!
# The text of an element

Parts of a sequence are separated by spaces and branches of an alternation by
slashes. An element with several parts or branches is parenthesised when it is
itself a part, a branch or the operand of a repetition; an option brings its
own brackets. The bounds of a repetition stand directly before the operand.
-/

namespace AbnfMatching.Element

/-- The elements that need parentheses below another element: sequences and
alternations of at least two constituents. -/
def isGroup : Element → Bool
  | .sequence parts => 1 < parts.length
  | .alternation branches => 1 < branches.length
  | _ => false

/-- Parenthesise the text of an element where the element requires it. -/
def grouped (element : Element) (text : Octets) : Octets :=
  if element.isGroup then octets "( " ++ text ++ octets " )" else text

def emptySequenceText : Octets :=
  octets "\"\""

def emptyAlternationText : Octets :=
  octets "( )"

mutual

/-- The text of an element that stands alone. -/
def text : Element → Octets
  | .terminal value => value.text
  | .reference name => name.spelling
  | .sequence parts =>
      if parts.isEmpty then emptySequenceText
      else (octets " ").intercalate (operandTexts parts)
  | .alternation branches =>
      if branches.isEmpty then emptyAlternationText
      else (octets " / ").intercalate (operandTexts branches)
  | .option body => octets "[ " ++ text body ++ octets " ]"
  | .repetition bounds body => bounds.text ++ grouped body (text body)

def operandTexts : List Element → List Octets
  | [] => []
  | head :: tail => grouped head (text head) :: operandTexts tail

end

/-- The text of an element below another one. -/
def operandText (element : Element) : Octets :=
  grouped element element.text

theorem operandTexts_eq_map (elements : List Element) :
    operandTexts elements = elements.map operandText := by
  induction elements with
  | nil =>
      rfl
  | cons head tail inductionHypothesis =>
      simp [operandTexts, operandText, inductionHypothesis]

end AbnfMatching.Element
