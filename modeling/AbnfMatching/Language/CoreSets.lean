import AbnfMatching.Octets.Fold

/-!
# The languages of the core rules

RFC 5234 defines the core rules in its Appendix B.1. Read as languages, all of
them but one are sets of single octets, and the last one, `CRLF`, has a single
word of two octets. The sets are listed here under the folded names, as unions
of intervals. Literals are caseless, so that `HEXDIG` has the small letters
too.
-/

namespace AbnfMatching.Core

/-- An interval of octets, both ends included. -/
structure Interval where
  lower : UInt8
  upper : UInt8

def Interval.has (interval : Interval) (octet : UInt8) : Bool :=
  interval.lower ≤ octet && octet ≤ interval.upper

theorem Interval.has_iff {interval : Interval} {octet : UInt8} :
    interval.has octet = true ↔
      interval.lower.toNat ≤ octet.toNat ∧
        octet.toNat ≤ interval.upper.toNat := by
  simp [has, UInt8.le_iff_toNat_le]

/-- An interval whose ends are equal has one octet. -/
theorem Interval.has_point_iff {value octet : UInt8} :
    (Interval.mk value value).has octet = true ↔ octet = value := by
  rw [has_iff, ← UInt8.toNat_inj]
  dsimp only
  omega

def lineEndName : Octets :=
  octets "crlf"

def lineEnd : Octets :=
  [0x0D, 0x0A]

/-- The core rules whose words are single octets. -/
def octetSets : List (Octets × List Interval) :=
  [ (octets "alpha", [⟨0x41, 0x5A⟩, ⟨0x61, 0x7A⟩]),
    (octets "bit", [⟨0x30, 0x31⟩]),
    (octets "char", [⟨0x01, 0x7F⟩]),
    (octets "cr", [⟨0x0D, 0x0D⟩]),
    (octets "ctl", [⟨0x00, 0x1F⟩, ⟨0x7F, 0x7F⟩]),
    (octets "digit", [⟨0x30, 0x39⟩]),
    (octets "dquote", [⟨0x22, 0x22⟩]),
    (octets "hexdig", [⟨0x30, 0x39⟩, ⟨0x41, 0x46⟩, ⟨0x61, 0x66⟩]),
    (octets "htab", [⟨0x09, 0x09⟩]),
    (octets "lf", [⟨0x0A, 0x0A⟩]),
    (octets "octet", [⟨0x00, 0xFF⟩]),
    (octets "sp", [⟨0x20, 0x20⟩]),
    (octets "vchar", [⟨0x21, 0x7E⟩]),
    (octets "wsp", [⟨0x20, 0x20⟩, ⟨0x09, 0x09⟩]) ]

/-- The folded names of all core rules. -/
def names : List Octets :=
  lineEndName :: octetSets.map Prod.fst

/-- Whether an octet is in the set of the given folded name. -/
def hasOctet (name : Octets) (octet : UInt8) : Bool :=
  (octetSets.lookup name).any fun intervals =>
    intervals.any fun interval => interval.has octet

/-- Whether a word belongs to the core rule of the given folded name. -/
def hasWord (name word : Octets) : Bool :=
  if name = lineEndName then
    word == lineEnd
  else
    match word with
    | [octet] => hasOctet name octet
    | _ => false

theorem hasOctet_iff
    {name : Octets} {intervals : List Interval} {octet : UInt8}
    (listed : octetSets.lookup name = some intervals) :
    hasOctet name octet = true ↔
      ∃ interval ∈ intervals, interval.has octet = true := by
  rw [hasOctet, listed, Option.any_some, List.any_eq_true]

theorem hasWord_lineEndName_iff {word : Octets} :
    hasWord lineEndName word = true ↔ word = lineEnd := by
  unfold hasWord
  rw [if_pos rfl, beq_iff_eq]

/-- Under any other name there are words of one octet only. -/
theorem hasWord_iff
    {name word : Octets} (other : name ≠ lineEndName) :
    hasWord name word = true ↔
      ∃ octet, word = [octet] ∧ hasOctet name octet = true := by
  unfold hasWord
  rw [if_neg other]
  split
  · simp
  · next notSingle =>
      simp only [Bool.false_eq_true, false_iff]
      rintro ⟨octet, rfl, _⟩
      exact notSingle octet rfl

/-- Words under one name have the same length. -/
theorem length_eq_of_hasWord
    {name left right : Octets}
    (leftWord : hasWord name left = true)
    (rightWord : hasWord name right = true) :
    left.length = right.length := by
  by_cases isLineEnd : name = lineEndName
  · subst isLineEnd
    rw [hasWord_lineEndName_iff.mp leftWord,
      hasWord_lineEndName_iff.mp rightWord]
  · obtain ⟨_, rfl, _⟩ := (hasWord_iff isLineEnd).mp leftWord
    obtain ⟨_, rfl, _⟩ := (hasWord_iff isLineEnd).mp rightWord
    rfl

theorem ne_nil_of_hasWord
    {name word : Octets} (isWord : hasWord name word = true) :
    word ≠ [] := by
  by_cases isLineEnd : name = lineEndName
  · subst isLineEnd
    rw [hasWord_lineEndName_iff.mp isWord]
    exact List.cons_ne_nil _ _
  · obtain ⟨octet, rfl, _⟩ := (hasWord_iff isLineEnd).mp isWord
    exact List.cons_ne_nil octet []

/-- Whether a nonempty part of the input, from its beginning but short of its
end, is a word of the given folded name. -/
def BeginsWithWord (name input : Octets) : Prop :=
  ∃ front, front <+: input ∧ front ≠ [] ∧ front ≠ input ∧
    hasWord name front = true

theorem not_beginsWithWord_of_hasWord
    {name input : Octets} (isWord : hasWord name input = true) :
    ¬ BeginsWithWord name input := by
  rintro ⟨front, begins, _, part, frontIsWord⟩
  exact part (begins.eq_of_length (length_eq_of_hasWord frontIsWord isWord))

end AbnfMatching.Core
