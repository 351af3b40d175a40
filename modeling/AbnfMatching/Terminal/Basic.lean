import AbnfMatching.Defect
import AbnfMatching.Octets.Fold

/-!
# Terminals

A terminal is the smallest unit of matching. Every terminal has a fixed length:
it accepts some slices of exactly that many octets and no others.
-/

namespace AbnfMatching

inductive LetterCase where
  | sensitive
  | insensitive
deriving DecidableEq, Hashable

structure OctetRange where
  lower : UInt8
  upper : UInt8
  lower_le_upper : lower ≤ upper
deriving DecidableEq, Hashable

/-- A literal text, a single octet, or any one octet of a range. -/
inductive Terminal where
  | literal (text : Octets) (letterCase : LetterCase)
  | octet (value : UInt8)
  | range (interval : OctetRange)
deriving DecidableEq, Hashable

namespace OctetRange

/-- The interval between two octets, provided that it is not empty. -/
def ofEnds (lower upper : UInt8) : Except Defect OctetRange :=
  if ordered : lower ≤ upper then .ok ⟨lower, upper, ordered⟩
  else .error (.invertedRange lower upper)

/-- Membership of an octet in an interval, both ends included. -/
def contains (interval : OctetRange) (octet : UInt8) : Bool :=
  interval.lower ≤ octet && octet ≤ interval.upper

end OctetRange

namespace Terminal

/-- A literal compared up to letter case, which is how plain literals are
read. -/
def caseless (text : Octets) : Terminal :=
  .literal text .insensitive

/-- A literal compared octet by octet. -/
def exactly (text : Octets) : Terminal :=
  .literal text .sensitive

def length : Terminal → Nat
  | literal text _ => text.length
  | octet _ => 1
  | range _ => 1

def accepts : Terminal → Octets → Bool
  | literal text .sensitive, slice => slice == text
  | literal text .insensitive, slice => sameFolded slice text
  | octet value, slice => slice == [value]
  | range interval, [single] => interval.contains single
  | range _, _ => false

/-- The octets that a terminal accepts when they stand alone. -/
def singles (terminal : Terminal) : Octets :=
  allOctets.filter fun octet => terminal.accepts [octet]

/-- Nothing is accepted but slices of the terminal's own length. -/
theorem length_of_accepts
    {terminal : Terminal} {slice : Octets}
    (accepted : terminal.accepts slice = true) :
    slice.length = terminal.length := by
  cases terminal with
  | literal text letterCase =>
      cases letterCase with
      | sensitive =>
          have equal : slice = text := by simpa [accepts] using accepted
          simp [length, equal]
      | insensitive =>
          have folded : foldCase slice = foldCase text := by
            simpa [accepts, sameFolded] using accepted
          simpa [length] using congrArg List.length folded
  | octet value =>
      have equal : slice = [value] := by simpa [accepts] using accepted
      simp [length, equal]
  | range interval =>
      match slice with
      | [] => simp [accepts] at accepted
      | [_] => simp [length]
      | _ :: _ :: _ => simp [accepts] at accepted

end Terminal

end AbnfMatching
