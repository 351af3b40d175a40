import AbnfMatching.Octets.Basic

/-!
# Numerals

Counts are written in decimal without leading zeros. Octets are written as two
upper-case hexadecimal digits.
-/

namespace AbnfMatching

def decimal (count : Nat) : Octets :=
  (Nat.toDigits 10 count).map Char.toUInt8

/-- The hexadecimal digit of a number below 16: `0` to `9`, then `A` to `F`. -/
def hexDigit (value : UInt8) : UInt8 :=
  if value < 10 then 0x30 + value else 0x37 + value

/-- An octet as two hexadecimal digits, the high one first. -/
def hexPair (octet : UInt8) : Octets :=
  [hexDigit (octet / 16), hexDigit (octet % 16)]

end AbnfMatching
