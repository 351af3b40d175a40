import AbnfMatching.Octets.Numeral

/-!
# Quoted octet strings

Diagnostics show octets as text. A printable octet stands for itself, every
other octet is written as a four-character escape `\xNN`. Inside double quotes
the quote and the backslash are escaped as well, and a string longer than the
given limit is cut there and marked by an ellipsis before the closing quote.
-/

namespace AbnfMatching

/-- The escape of an octet: a backslash, the letter `x` and two hexadecimal
digits. -/
def escapeOctet (octet : UInt8) : Octets :=
  backslash :: 0x78 :: hexPair octet

/-- One octet on its own: a printable character between single quotes, or the
bare escape. -/
def describeOctet (octet : UInt8) : Octets :=
  if isPrintable octet then [singleQuote, octet, singleQuote]
  else escapeOctet octet

/-- The octets that stand for themselves between double quotes. -/
def isPlain (octet : UInt8) : Bool :=
  isPrintable octet && octet != doubleQuote && octet != backslash

def quoteOctet (octet : UInt8) : Octets :=
  if isPlain octet then [octet] else escapeOctet octet

def ellipsis : Octets :=
  octets "..."

/-- How many octets of a string are shown when nothing else is asked for. -/
def defaultQuoteLimit : Nat := 30

/-- A string between double quotes, showing at most its first `limit`
octets. -/
def quoteOctets (bytes : Octets) (limit : Nat := defaultQuoteLimit) : Octets :=
  let shown := (bytes.take limit).flatMap quoteOctet
  let mark := if limit < bytes.length then ellipsis else []
  doubleQuote :: (shown ++ mark ++ [doubleQuote])

end AbnfMatching
