/-!
# Octet strings

Inputs, literals, rule names, rendered grammars and messages are strings of
octets. No character encoding is assumed: an octet above `0x7F` is an octet
like any other.
-/

namespace AbnfMatching

abbrev Octets := List UInt8

/-- Spell out a fixed text whose characters all have codes below 256, one
octet per character. -/
def octets (text : String) : Octets :=
  text.toList.map Char.toUInt8

/-- Every octet once, in ascending order. -/
def allOctets : Octets :=
  (List.range 256).map UInt8.ofNat

/-- The octets with a printable ASCII character: the space and everything up
to the tilde. -/
def isPrintable (octet : UInt8) : Bool :=
  0x20 ≤ octet && octet ≤ 0x7E

def doubleQuote : UInt8 := 0x22

def singleQuote : UInt8 := 0x27

def backslash : UInt8 := 0x5C

end AbnfMatching
