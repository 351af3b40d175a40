import AbnfMatching.Conformance.Failure
import AbnfMatching.Conformance.Options
import AbnfMatching.Matching.Exhaustive
import AbnfMatching.Matching.Greedy

/-!
# Conformance

An element can be matched at an offset of an input, which tells how much it
consumes; all lengths that it can consume there can be listed; and an input as
a whole can be checked against a rule.

An element under test stands in a tree of its own, unless it is the right-hand
side of a rule of the grammar, or a part of it, and is meant as such: then it
stands at its place in the tree of that rule, and references to the rule lead
back to it.
-/

namespace AbnfMatching

namespace Conformance

def setting
    (options : Options) (grammar : Option Grammar) (input : Octets) :
    Setting :=
  ⟨input.toArray, grammar, options.verbose⟩

/-- All ends of an element at an offset, found by exhaustive matching. -/
def allEnds
    (options : Options) (grammar : Option Grammar) (element : Element)
    (input : Octets) (offset : Offset) (place : Place := .tested) :
    Report Fault Ends :=
  let (outcome, memory) :=
    Exhaustive.run (setting options grammar input) options.limit
      (place.occurrence element) offset
  ⟨outcome, memory.trace⟩

/-- The end that greedy matching reaches, if it matches. -/
def greedyEnd
    (options : Options) (grammar : Option Grammar) (element : Element)
    (input : Octets) (offset : Offset) :
    Report Fault (Option Offset) :=
  let (outcome, trace) :=
    Greedy.run (setting options grammar input) options.limit element offset
  ⟨outcome, trace⟩

/-- How many octets an element consumes at an offset, if it matches there. Of
several possible matches, exhaustive matching reports the longest. -/
def matchElement
    (options : Options) (grammar : Option Grammar) (element : Element)
    (input : Octets) (offset : Offset) (place : Place := .tested) :
    Report Fault (Option UInt64) :=
  match options.strategy with
  | .greedy =>
      let ⟨outcome, trace⟩ := greedyEnd options grammar element input offset
      ⟨outcome.map fun stop => stop.map (· - offset), trace⟩
  | .exhaustive =>
      let ⟨outcome, trace⟩ :=
        allEnds options grammar element input offset place
      ⟨outcome.map fun ends => ends.farthest?.map (· - offset), trace⟩

/-- Every number of octets that an element can consume at an offset. The
matching is exhaustive, whatever the strategy of the options. -/
def matchLengths
    (options : Options) (grammar : Option Grammar) (element : Element)
    (input : Octets) (offset : Offset) (place : Place := .tested) :
    Report Fault (List UInt64) :=
  let ⟨outcome, trace⟩ := allEnds options grammar element input offset place
  ⟨outcome.map fun ends => ends.offsets.map (· - offset), trace⟩

/-- Judge a greedy match of a rule that starts at the beginning of the
input. -/
def judgeEnd (rule : RuleName) (total : UInt64) :
    Option Offset → Except Failure Unit
  | none => .error (.rejected (.mismatch rule))
  | some stop =>
      if stop = total then .ok ()
      else .error (.rejected (.incomplete rule stop total))

/-- Judge all matches of a rule that start at the beginning of the input: one
of them has to take the whole of it. -/
def judgeEnds (rule : RuleName) (total : UInt64) (ends : Ends) :
    Except Failure Unit :=
  match ends.farthest? with
  | none => .error (.rejected (.mismatch rule))
  | some farthest =>
      if total ∈ ends then .ok ()
      else .error (.rejected (.incomplete rule farthest total))

/-- The trace of a check opens with a heading. -/
def headed
    (options : Options) (input : Octets) (rule : RuleName) (trace : Trace) :
    Trace :=
  if options.verbose then #[.heading input rule.spelling] ++ trace
  else trace

/-- Check a whole input against a rule. -/
def validate
    (options : Options) (grammar : Option Grammar) (rule : Rule)
    (input : Octets) (place : Place := .tested) :
    Report Failure Unit :=
  let total := UInt64.ofNat input.length
  match options.strategy with
  | .greedy =>
      let ⟨outcome, trace⟩ := greedyEnd options grammar rule.element input 0
      ⟨outcome.mapError .fault >>= judgeEnd rule.name total,
        headed options input rule.name trace⟩
  | .exhaustive =>
      let ⟨outcome, trace⟩ :=
        allEnds options grammar rule.element input 0 place
      ⟨outcome.mapError .fault >>= judgeEnds rule.name total,
        headed options input rule.name trace⟩

/-- Check a whole input against a rule of the grammar, given by name. -/
def validateNamed
    (options : Options) (grammar : Grammar) (name : Octets)
    (input : Octets) : Report Failure Unit :=
  match grammar.fetch name with
  | .error fault => .failed (.fault fault)
  | .ok rule => validate options grammar rule input (.rule rule.key)

/-- Read the outcome of a check as a decision: a rejection is a no, a fault
remains one. -/
def decision : Except Failure Unit → Except Fault Bool
  | .ok () => .ok true
  | .error (.rejected _) => .ok false
  | .error (.fault fault) => .error fault

/-- Whether a whole input conforms to a rule. -/
def conforms
    (options : Options) (grammar : Option Grammar) (rule : Rule)
    (input : Octets) (place : Place := .tested) :
    Report Fault Bool :=
  let ⟨outcome, trace⟩ := validate options grammar rule input place
  ⟨decision outcome, trace⟩

/-! ## Questions put together

What follows are no entry points of their own but what callers make of them. -/

/-- Fetch a rule of the grammar by its name, then ask whether the input conforms
to what was found. -/
def conformsNamed
    (options : Options) (grammar : Grammar) (name : Octets)
    (input : Octets) : Report Fault Bool :=
  match grammar.fetch name with
  | .error fault => .failed fault
  | .ok rule => conforms options grammar rule input (.rule rule.key)

/-- Ask for each octet whether it conforms to a rule when it stands alone and
references cannot be resolved. -/
def conformingSingles (options : Options) (rule : Rule) :
    Except Fault Octets :=
  allOctets.filterM fun octet => (conforms options none rule [octet]).outcome

end Conformance

end AbnfMatching
