import AbnfMatching.Octets.Numeral

/-!
# Defects of construction

Ranges, repetition bounds and names carry conditions. A value that would
violate its condition is never built; the attempt is answered by the defect.
-/

namespace AbnfMatching

/-- Why a terminal, an element or a rule could not be built. -/
inductive Defect where
  /-- The lower end of an octet range exceeds the upper end. -/
  | invertedRange (lower upper : UInt8)
  /-- The least number of repetitions exceeds the greatest. -/
  | invertedBounds (minimum maximum : Nat)
  /-- A reference names no rule. -/
  | namelessReference
  /-- A rule has no name. -/
  | namelessRule
deriving DecidableEq

namespace Defect

def message : Defect → Octets
  | invertedRange lower upper =>
      octets "invalid byte range %x" ++ hexPair lower ++ octets "-" ++
        hexPair upper ++ octets ": lower bound exceeds upper bound"
  | invertedBounds minimum maximum =>
      octets "invalid repetition " ++ decimal minimum ++ octets "*" ++
        decimal maximum ++ octets ": minimum exceeds maximum"
  | namelessReference =>
      octets "rule reference with an empty name"
  | namelessRule =>
      octets "rule with an empty name"

end Defect

end AbnfMatching
