import AbnfMatching.Grammar.Basic
import AbnfMatching.Matching.Ends

/-!
# The setting of a match

While an input is matched, the input itself, the grammar that resolves
references and the wish for a trace stay the same. They form the setting, which
also answers the two questions that need no further matching: what a terminal
does at an offset and which rule a reference means.
-/

namespace AbnfMatching

structure Setting where
  input : Array UInt8
  grammar : Option Grammar
  verbose : Bool

namespace Setting

/-- The octets from an offset on, at most `length` of them. -/
def slice (setting : Setting) (offset : Offset) (length : Nat) : Octets :=
  (setting.input.extract offset.toNat (offset.toNat + length)).toList

/-- Where a terminal ends if it matches at an offset. The end is computed with
wrap-around; an offset beyond the input therefore passes the test of the end
when the sum wraps, and the slice at that offset does not exist. -/
def terminalEnd
    (setting : Setting) (terminal : Terminal) (offset : Offset) :
    Except Fault (Option Offset) :=
  let stop := offset + UInt64.ofNat terminal.length
  if setting.input.size < stop.toNat then
    .ok none
  else if setting.input.size < offset.toNat then
    .error .outOfRange
  else if terminal.accepts (setting.slice offset terminal.length) then
    .ok (some stop)
  else
    .ok none

def resolve (setting : Setting) (name : RuleName) : Except Fault Rule :=
  match setting.grammar with
  | none => .error (.noGrammar name.spelling)
  | some grammar => grammar.fetch name.spelling

end Setting

end AbnfMatching
