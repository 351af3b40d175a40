import AbnfMatching.Octets.Quoted
import AbnfMatching.Proofs.TerminalTexts

/-!
# What a quoted string tells

Between its quotes a quoted string shows one octet after the other, each either
as itself or by an escape. Only escapes begin with a backslash, so the octets
can be read back one by one. The ellipsis of a string that has been cut reads
as three octets beyond the limit. A string that has not been cut never shows so
many, whatever its octets are.
-/

namespace AbnfMatching

section Reading

variable {octet left right : UInt8} {rest rest' : Octets}

theorem quoteOctet_of_isPlain (plain : isPlain octet = true) :
    quoteOctet octet = [octet] :=
  if_pos plain

theorem quoteOctet_of_not_isPlain (escaped : isPlain octet = false) :
    quoteOctet octet = backslash :: 0x78 :: hexPair octet := by
  rw [quoteOctet, escaped]
  rfl

theorem ne_backslash_of_isPlain (plain : isPlain octet = true) :
    octet ≠ backslash := by
  intro same
  subst same
  revert plain
  decide

/-- An octet that stands for itself is not mistaken for an escape. -/
theorem quoteOctet_append_ne
    (plain : isPlain left = true) (escaped : isPlain right = false) :
    quoteOctet left ++ rest ≠ quoteOctet right ++ rest' := by
  rw [quoteOctet_of_isPlain plain, quoteOctet_of_not_isPlain escaped]
  intro same
  exact ne_backslash_of_isPlain plain (List.cons.inj same).1

/-- The first octet that is shown can be read back, whatever follows it. -/
theorem quoteOctet_append_inj
    (same : quoteOctet left ++ rest = quoteOctet right ++ rest') :
    left = right ∧ rest = rest' := by
  by_cases leftPlain : isPlain left = true
  · by_cases rightPlain : isPlain right = true
    · rw [quoteOctet_of_isPlain leftPlain,
        quoteOctet_of_isPlain rightPlain] at same
      exact List.cons.inj same
    · exact absurd same
        (quoteOctet_append_ne leftPlain (Bool.eq_false_iff.mpr rightPlain))
  · by_cases rightPlain : isPlain right = true
    · exact absurd same.symm
        (quoteOctet_append_ne rightPlain (Bool.eq_false_iff.mpr leftPlain))
    · rw [quoteOctet_of_not_isPlain (Bool.eq_false_iff.mpr leftPlain),
        quoteOctet_of_not_isPlain (Bool.eq_false_iff.mpr rightPlain)] at same
      simp only [List.cons_append, List.cons.injEq, true_and] at same
      exact hexPair_append_inj same

theorem quoteOctet_ne_nil (octet : UInt8) :
    quoteOctet octet ≠ [] := by
  unfold quoteOctet
  split <;> simp [escapeOctet]

end Reading

/-- All octets that are shown can be read back. -/
theorem flatMap_quoteOctet_injective :
    Function.Injective fun bytes : Octets => bytes.flatMap quoteOctet := by
  intro left
  induction left with
  | nil =>
      intro right same
      cases right with
      | nil => rfl
      | cons head tail => simp [quoteOctet_ne_nil head] at same
  | cons head tail inductionHypothesis =>
      intro right same
      cases right with
      | nil =>
          simp [quoteOctet_ne_nil head] at same
      | cons other rest =>
          simp only [List.flatMap_cons] at same
          obtain ⟨rfl, tails⟩ := quoteOctet_append_inj same
          rw [inductionHypothesis tails]

/-- What a quoted string seems to show, the ellipsis being read as three more
octets. -/
def apparent (limit : Nat) (bytes : Octets) : Octets :=
  bytes.take limit ++ if limit < bytes.length then ellipsis else []

section Apparent

variable {limit : Nat} {bytes left right : Octets}

theorem apparent_of_le (whole : bytes.length ≤ limit) :
    apparent limit bytes = bytes := by
  rw [apparent, if_neg (Nat.not_lt.mpr whole), List.append_nil,
    List.take_of_length_le whole]

theorem apparent_of_lt (cut : limit < bytes.length) :
    apparent limit bytes = bytes.take limit ++ ellipsis := by
  rw [apparent, if_pos cut]

/-- A string that has been cut seems to be three octets longer than the
limit. -/
theorem length_apparent_of_lt (cut : limit < bytes.length) :
    (apparent limit bytes).length = limit + 3 := by
  have three : ellipsis.length = 3 := by
    decide
  rw [apparent_of_lt cut, List.length_append, three,
    List.length_take_of_le (Nat.le_of_lt cut)]

theorem apparent_eq_iff :
    apparent limit left = apparent limit right ↔
      (left.length ≤ limit ∧ right.length ≤ limit ∧ left = right) ∨
      (limit < left.length ∧ limit < right.length ∧
        left.take limit = right.take limit) := by
  by_cases leftWhole : left.length ≤ limit
  · by_cases rightWhole : right.length ≤ limit
    · rw [apparent_of_le leftWhole, apparent_of_le rightWhole]
      simp [leftWhole, rightWhole, Nat.not_lt.mpr leftWhole]
    · have length := length_apparent_of_lt (Nat.lt_of_not_le rightWhole)
      have different : apparent limit left ≠ apparent limit right := by
        intro same
        rw [← same, apparent_of_le leftWhole] at length
        omega
      simp [different, rightWhole, Nat.not_lt.mpr leftWhole]
  · have leftCut := Nat.lt_of_not_le leftWhole
    by_cases rightWhole : right.length ≤ limit
    · have length := length_apparent_of_lt leftCut
      have different : apparent limit left ≠ apparent limit right := by
        intro same
        rw [same, apparent_of_le rightWhole] at length
        omega
      simp [different, leftWhole, Nat.not_lt.mpr rightWhole]
    · have rightCut := Nat.lt_of_not_le rightWhole
      rw [apparent_of_lt leftCut, apparent_of_lt rightCut]
      simp [leftCut, rightCut, leftWhole]

end Apparent

/-- The ellipsis is shown as any other three dots would be. -/
theorem quoteOctets_eq (bytes : Octets) (limit : Nat) :
    quoteOctets bytes limit =
      doubleQuote ::
        ((apparent limit bytes).flatMap quoteOctet ++ [doubleQuote]) := by
  have dots : ellipsis.flatMap quoteOctet = ellipsis := by
    decide
  by_cases cut : limit < bytes.length
  · simp [quoteOctets, apparent, cut, dots]
  · simp [quoteOctets, apparent, cut]

/-- Quoted strings are unambiguous: with the same limit, two strings look the
same if and only if both are shown as a whole and are equal, or both are cut
and agree as far as they are shown. -/
theorem quoteOctets_eq_iff {left right : Octets} {limit : Nat} :
    quoteOctets left limit = quoteOctets right limit ↔
      (left.length ≤ limit ∧ right.length ≤ limit ∧ left = right) ∨
      (limit < left.length ∧ limit < right.length ∧
        left.take limit = right.take limit) := by
  rw [quoteOctets_eq, quoteOctets_eq, List.cons.injEq,
    List.append_left_inj, ← apparent_eq_iff]
  constructor
  · intro same
    exact flatMap_quoteOctet_injective same.2
  · intro same
    rw [same]
    exact ⟨rfl, rfl⟩

/-- The limit has to be the same for both: under different limits, a string that
has been cut may look like one that has not. -/
example : quoteOctets (octets ".abcd") 1 = quoteOctets (octets "....") 4 := by
  decide

end AbnfMatching
