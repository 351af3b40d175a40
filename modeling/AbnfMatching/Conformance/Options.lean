import AbnfMatching.Matching.Trace

/-!
# Options and reports

A caller chooses how to match, how deep elements may nest and whether a trace
is wanted. The answer is a report: an outcome, and the trace that led to it.
-/

namespace AbnfMatching

/-- Follow one path through the grammar, or explore all of them. -/
inductive Strategy where
  | greedy
  | exhaustive
deriving DecidableEq

/-- The nesting limit when nothing else is asked for. -/
def defaultLimit : Nat := 1000

structure Options where
  strategy : Strategy := .greedy
  limit : Nat := defaultLimit
  verbose : Bool := false

/-- An outcome together with the trace of the computation, which is empty
unless one was asked for. -/
structure Report (ε α : Type) where
  outcome : Except ε α
  trace : Trace

namespace Report

variable {ε α : Type}

def failed (error : ε) : Report ε α :=
  ⟨.error error, #[]⟩

end Report

end AbnfMatching
