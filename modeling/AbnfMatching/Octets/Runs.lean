import AbnfMatching.Octets.Basic

/-!
# Runs of octets

A set of octets is reported as its maximal runs of consecutive values, in
ascending order, each given by its first and last member.
-/

namespace AbnfMatching

/-- Put an octet in front of runs that all lie above it: it joins the first run
if that run starts right after it, and opens a run of its own otherwise. -/
def extendRuns (octet : UInt8) :
    List (UInt8 × UInt8) → List (UInt8 × UInt8)
  | [] => [(octet, octet)]
  | (first, last) :: rest =>
      if octet.toNat + 1 = first.toNat then
        (octet, last) :: rest
      else
        (octet, octet) :: (first, last) :: rest

/-- The maximal runs of an ascending list of octets. -/
def runs (bytes : Octets) : List (UInt8 × UInt8) :=
  bytes.foldr extendRuns []

example : runs [1, 2, 3, 7, 9, 10] = [(1, 3), (7, 7), (9, 10)] := by
  decide

end AbnfMatching
