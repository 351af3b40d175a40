import AbnfMatching.Element.Rendering

/-!
# Normal form of elements

Different elements may have the same text: a group of one constituent is
written like the constituent, the sequence of no parts like the empty literal,
and a literal in hexadecimal like its exact form. The normal form chooses one
element for each of these cases.
-/

namespace AbnfMatching

/-- The literal that the hexadecimal text of some octets stands for: a single
octet, or the octets exactly as they are. -/
def Terminal.spelledOut : Octets → Terminal
  | [single] => .octet single
  | bytes => .exactly bytes

/-- Replace a literal that cannot be quoted by what its text stands for. -/
def Terminal.normal : Terminal → Terminal
  | .literal bytes letterCase =>
      if bytes.all isQuotable then .literal bytes letterCase
      else spelledOut bytes
  | .octet value => .octet value
  | .range interval => .range interval

namespace Element

def normalSequence : List Element → Element
  | [] => .terminal (.caseless [])
  | [part] => part
  | parts => .sequence parts

def normalAlternation : List Element → Element
  | [branch] => branch
  | branches => .alternation branches

mutual

def normal : Element → Element
  | .terminal value => .terminal value.normal
  | .reference name => .reference name
  | .sequence parts => normalSequence (normalOfAll parts)
  | .alternation branches => normalAlternation (normalOfAll branches)
  | .option body => .option (normal body)
  | .repetition bounds body => .repetition bounds (normal body)

def normalOfAll : List Element → List Element
  | [] => []
  | head :: tail => normal head :: normalOfAll tail

end

theorem normalOfAll_eq_map (elements : List Element) :
    normalOfAll elements = elements.map normal := by
  induction elements with
  | nil =>
      rfl
  | cons head tail inductionHypothesis =>
      simp [normalOfAll, inductionHypothesis]

end Element

end AbnfMatching
