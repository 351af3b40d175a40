import AbnfMatching.Element.Rendering
import AbnfMatching.Matching.Ends
import AbnfMatching.Octets.Quoted

/-!
# Traces

A verbose match keeps a trace: a heading for the whole input where a rule is
checked against it, and one entry for each evaluated element, written after the
entries of the elements below it and indented by its depth.
-/

namespace AbnfMatching

/-- What the evaluation of an element at an offset came to. -/
inductive Finding where
  | matched (length : UInt64)
  | noMatch
  | endsAt (ends : Ends)

/-- One line of a trace. The element under test has depth one. -/
inductive TraceEntry where
  | heading (input : Octets) (rule : Octets)
  | evaluation
      (depth : Nat) (element : Element) (offset : Offset) (finding : Finding)

/-- The lines of a trace, the oldest first. -/
abbrev Trace := Array TraceEntry

namespace Finding

/-- The finding of a match that ends at one place or fails. -/
def ofEnd (offset : Offset) : Option Offset → Finding
  | some stop => matched (stop - offset)
  | none => noMatch

def text : Finding → Octets
  | matched length =>
      octets "matched " ++ decimal length.toNat ++ octets " bytes"
  | noMatch =>
      octets "no match"
  | endsAt ends =>
      octets "ends at [" ++
        (octets ", ").intercalate
          (ends.offsets.map fun stop => decimal stop.toNat) ++
        octets "]"

end Finding

namespace TraceEntry

def lineFeed : UInt8 := 0x0A

/-- The width of the indentation at a depth: two spaces for each level. -/
def indentation (depth : Nat) : Nat :=
  2 * depth

def text : TraceEntry → Octets
  | heading input rule =>
      octets "Validating " ++ quoteOctets input ++ octets " (" ++
        decimal input.length ++ octets " bytes) against rule '" ++ rule ++
        octets "'" ++ [lineFeed]
  | evaluation depth element offset finding =>
      List.replicate (indentation depth) 0x20 ++ element.text ++
        octets " @" ++ decimal offset.toNat ++ octets ": " ++ finding.text ++
        [lineFeed]

end TraceEntry

def Trace.text (trace : Trace) : Octets :=
  trace.toList.flatMap TraceEntry.text

end AbnfMatching
