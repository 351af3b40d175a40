import AbnfMatching.Proofs.EmbeddedOutcomes

/-!
# Octets around an input

A match that starts at an offset does not depend on the octets before it: put
more octets in front of the input, move the offset along, and both strategies
report the same. Octets that are added at the end may change what the greedy
strategy does, but exhaustive matching only finds further ends among them.
Left-recursive grammars are no exception, although what is found for them
depends on the order of the visits: the additional visits do not interfere.
-/

namespace AbnfMatching.Conformance

section Surrounded

variable {options : Options} {grammar : Option Grammar}
  {before input after : Octets}

/-- Surrounded by other octets, the octets between two offsets stay the same. -/
theorem between_surrounded
    {start stop : Offset}
    (fits : before.length + input.length + after.length < UInt64.size)
    (ordered : start ≤ stop) (inside : stop.toNat ≤ input.length) :
    (setting options grammar (before ++ input ++ after)).between
        (displace before.length start) (displace before.length stop) =
      (setting options grammar input).between start stop := by
  have startLe := UInt64.le_iff_toNat_le.mp ordered
  have length :
      (before.length + stop.toNat) - (before.length + start.toNat) =
        stop.toNat - start.toNat := by
    omega
  unfold Setting.between
  rw [toNat_displace (by omega), toNat_displace (by omega), length]
  simp only [setting, List.toList_toArray]
  rw [List.append_assoc, ← List.drop_drop, List.drop_left,
    List.drop_append_of_le_length (by omega),
    List.take_append_of_le_length (by rw [List.length_drop]; omega)]

/-- An input inside another one, all elements being considered. -/
def surrounded
    (options : Options) (grammar : Option Grammar)
    (before input after : Octets)
    (fits : before.length + input.length + after.length < UInt64.size) :
    Embedding where
  inner := setting options grammar input
  outer := setting options grammar (before ++ input ++ after)
  lead := before.length
  within _ := True
  grammar := grammar_setting.trans grammar_setting.symm
  fits := by
    rw [size_setting, size_setting]
    simp
  addressable := by
    refine addressable_setting options grammar ?_
    rw [List.length_append, List.length_append]
    exact fits
  parts _ _ _ _ := trivial
  meanings _ _ _ _ := trivial
  terminals := by
    intro value _ start stop ordered inside
    rw [size_setting] at inside
    rw [between_surrounded fits ordered inside]

end Surrounded

/-- Octets before the offset of a match are ignored by either strategy: the same
is consumed, and the same lengths are listed, as if they were not there. -/
theorem octets_before_ignored
    {options : Options} {grammar : Option Grammar} {element : Element}
    {before input : Octets} {offset : Offset} {place : Place}
    (fits : before.length + input.length < UInt64.size)
    (inside : offset.toNat ≤ input.length) :
    (matchElement options grammar element (before ++ input)
        (UInt64.ofNat before.length + offset) place).outcome =
      (matchElement options grammar element input offset place).outcome ∧
    (matchLengths options grammar element (before ++ input)
        (UInt64.ofNat before.length + offset) place).outcome =
      (matchLengths options grammar element input offset place).outcome := by
  have nothingAfter :
      before.length + input.length + ([] : Octets).length < UInt64.size := by
    simpa using fits
  let embedding := surrounded options grammar before input [] nothingAfter
  have embeds : Embeds embedding options grammar input (before ++ input) :=
    ⟨rfl, congrArg (setting options grammar) (List.append_nil _)⟩
  have atEnd : embedding.AtEnd := by
    unfold Embedding.AtEnd
    rw [embeds.inner, embeds.outer, size_setting, size_setting,
      List.length_append]
    rfl
  exact embeds.matches_eq place atEnd trivial inside

theorem octets_before_ignored_growingLeft :
    (matchElement { strategy := .exhaustive }
        (some (.ofRules [growingLeft])) growingLeft.element
        (octets "ab" ++ octets "xx") (UInt64.ofNat 2 + 1)).outcome =
      .ok (some 1) ∧
    (matchLengths { strategy := .exhaustive }
        (some (.ofRules [growingLeft])) growingLeft.element
        (octets "ab" ++ octets "xx") (UInt64.ofNat 2 + 1)).outcome =
      .ok [1] := by
  have fits : (octets "ab").length + (octets "xx").length < UInt64.size := by
    decide
  have inside : (1 : Offset).toNat ≤ (octets "xx").length := by
    decide
  exact (octets_before_ignored fits inside).imp (·.trans rfl) (·.trans rfl)

/-- Appending octets keeps the lengths that are listed for an input: of those
listed for the longer one they are the lengths that stay inside the shorter
one. -/
theorem lengths_kept_by_appending
    {options : Options} {grammar : Option Grammar} {element : Element}
    {input after : Octets} {offset : Offset} {place : Place}
    {lengths : List UInt64}
    (fits : (input ++ after).length < UInt64.size)
    (inside : offset.toNat ≤ input.length)
    (returned : (matchLengths options grammar element (input ++ after) offset
      place).outcome = .ok lengths) :
    (matchLengths options grammar element input offset place).outcome =
      .ok (lengths.filter fun length =>
        length.toNat ≤ input.length - offset.toNat) := by
  have nothingBefore :
      ([] : Octets).length + input.length + after.length < UInt64.size := by
    simpa using fits
  let embedding := surrounded options grammar [] input after nothingBefore
  have embeds : Embeds embedding options grammar input (input ++ after) :=
    ⟨rfl, rfl⟩
  refine embeds.matchLengths_inside trivial inside ?_
  exact displace_zero.symm ▸ returned

theorem lengths_kept_by_appending_growingLeft :
    (matchLengths {} (some (.ofRules [growingLeft])) growingLeft.element
        (octets "xx" ++ octets "xy") 1).outcome = .ok [1, 2] ∧
    (matchLengths {} (some (.ofRules [growingLeft])) growingLeft.element
        (octets "xx") 1).outcome = .ok [1] := by
  have fits : (octets "xx" ++ octets "xy").length < UInt64.size := by
    decide
  have inside : (1 : Offset).toNat ≤ (octets "xx").length := by
    decide
  have returned :
      (matchLengths {} (some (.ofRules [growingLeft])) growingLeft.element
        (octets "xx" ++ octets "xy") 1).outcome = .ok [1, 2] := by
    rfl
  exact ⟨returned, lengths_kept_by_appending fits inside returned⟩

end AbnfMatching.Conformance
