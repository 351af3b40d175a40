import AbnfMatching.Element.RuleName
import AbnfMatching.Fault

/-!
# Failures of conformance

An input fails to conform to a rule in one of two ways: no part of it from the
start matches, or such a part does but the whole input does not. A check may
also end in a fault before either is known.
-/

namespace AbnfMatching

/-- How an input fails to conform to a rule. -/
inductive Rejection where
  /-- The rule matches nothing at the start of the input. -/
  | mismatch (rule : RuleName)
  /-- The rule matches no more than a part of the input. -/
  | incomplete (rule : RuleName) (consumed total : UInt64)
deriving DecidableEq

inductive Failure where
  | rejected (rejection : Rejection)
  | fault (fault : Fault)
deriving DecidableEq

namespace Rejection

def rule : Rejection → RuleName
  | mismatch name => name
  | incomplete name _ _ => name

def message : Rejection → Octets
  | mismatch name =>
      octets "Input does not match rule '" ++ name.spelling ++ octets "'"
  | incomplete name consumed total =>
      octets "Incomplete match for rule '" ++ name.spelling ++
        octets "': consumed " ++ decimal consumed.toNat ++ octets " of " ++
        decimal total.toNat ++ octets " bytes"

end Rejection

namespace Failure

def message : Failure → Octets
  | rejected rejection => rejection.message
  | fault cause => cause.message

end Failure

end AbnfMatching
