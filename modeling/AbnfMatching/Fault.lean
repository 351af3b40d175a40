import AbnfMatching.Octets.Numeral

/-!
# Faults

A match that cannot be carried out is a fault, as opposed to an input that does
not match: a reference cannot be resolved, the nesting exceeds its limit, or
the offset lies outside the input.
-/

namespace AbnfMatching

/-- Why a match, or the search for a rule, was given up. -/
inductive Fault where
  /-- A reference was met although no grammar was given. -/
  | noGrammar (reference : Octets)
  /-- The grammar has no rule of this name. -/
  | undefinedRule (name : Octets)
  /-- The nesting of elements reached the limit. -/
  | tooDeep (limit : Nat)
  /-- A slice was to be taken at an offset beyond the end of the input. -/
  | outOfRange
deriving DecidableEq

namespace Fault

/-- What a reference without a grammar asks for. -/
def missingGrammar (reference : Octets) : Octets :=
  octets "rule reference '" ++ reference ++
    octets "' requires a grammar to resolve it"

/-- The words in which a fault is reported. There are none for a slice outside
the input: it is refused by the string that it was to be taken from. -/
def message : Fault → Octets
  | noGrammar reference =>
      octets "Unsupported feature: " ++ missingGrammar reference
  | undefinedRule name =>
      octets "Undefined rule '" ++ name ++ octets "'"
  | tooDeep limit =>
      octets "Recursion limit of " ++ decimal limit ++
        octets " exceeded while matching"
  | outOfRange =>
      []

end Fault

end AbnfMatching
