import AbnfMatching.Grammar.Basic

/-!
# The core rules

The fifteen rules that every ABNF grammar may take for granted: letters,
digits, white space, line ends and the like. Each of them accepts a set of
single octets, except `CRLF`, which accepts the two octets of a line end. The
letters of `HEXDIG` are caseless literals, so small letters count too.
-/

namespace AbnfMatching

namespace Core

/-- The element that accepts one given octet. -/
def single (value : UInt8) : Element :=
  .terminal (.octet value)

/-- The element that accepts one octet of an interval. -/
def span (lower upper : UInt8) (ordered : lower ≤ upper := by decide) :
    Element :=
  .terminal (.range ⟨lower, upper, ordered⟩)

def letter (text : String) : Element :=
  .terminal (.caseless (octets text))

/-- A core rule under its customary name. -/
def rule
    (name : String) (element : Element)
    (nonempty : octets name ≠ [] := by decide) : Rule :=
  ⟨.ofText name nonempty, element⟩

def rules : List Rule :=
  [ rule "ALPHA" (.alternation [span 0x41 0x5A, span 0x61 0x7A]),
    rule "DIGIT" (span 0x30 0x39),
    rule "HEXDIG"
      (.alternation
        [span 0x30 0x39, letter "A", letter "B", letter "C", letter "D",
          letter "E", letter "F"]),
    rule "BIT" (.alternation [single 0x30, single 0x31]),
    rule "SP" (single 0x20),
    rule "HTAB" (single 0x09),
    rule "CR" (single 0x0D),
    rule "LF" (single 0x0A),
    rule "CRLF" (.sequence [single 0x0D, single 0x0A]),
    rule "WSP" (.alternation [single 0x20, single 0x09]),
    rule "DQUOTE" (single 0x22),
    rule "VCHAR" (span 0x21 0x7E),
    rule "CHAR" (span 0x01 0x7F),
    rule "CTL" (.alternation [span 0x00 0x1F, single 0x7F]),
    rule "OCTET" (span 0x00 0xFF) ]

/-- The core rule of a name, however the name is spelled. -/
def rule? (name : Octets) : Option Rule :=
  rules.find? fun rule => sameFolded rule.name.spelling name

end Core

def Grammar.core : Grammar :=
  Grammar.ofRules Core.rules

end AbnfMatching
