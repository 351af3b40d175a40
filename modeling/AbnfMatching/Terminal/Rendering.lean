import AbnfMatching.Octets.Numeral
import AbnfMatching.Terminal.Basic

/-!
# The text of a terminal

A literal is written between double quotes if each of its octets may stand
there, with the mark `%s` in front when letter case matters. Otherwise its
octets are spelled out in hexadecimal and joined by dots; that form has no mark
for letter case. Single octets and ranges are hexadecimal too.
-/

namespace AbnfMatching

/-- The octets that may stand inside a quoted literal: every printable one but
the double quote. -/
def isQuotable (octet : UInt8) : Bool :=
  isPrintable octet && octet != doubleQuote

def LetterCase.mark : LetterCase → Octets
  | sensitive => octets "%s"
  | insensitive => []

namespace Terminal

def hexMark : Octets :=
  octets "%x"

def text : Terminal → Octets
  | literal bytes letterCase =>
      if bytes.all isQuotable then
        letterCase.mark ++ doubleQuote :: (bytes ++ [doubleQuote])
      else
        hexMark ++ (octets ".").intercalate (bytes.map hexPair)
  | octet value =>
      hexMark ++ hexPair value
  | range interval =>
      hexMark ++ hexPair interval.lower ++ octets "-" ++
        hexPair interval.upper

example : (caseless (octets "abc")).text = octets "\"abc\"" := by
  decide

example : (exactly (octets "a\"")).text = octets "%x61.22" := by
  decide

end Terminal

end AbnfMatching
