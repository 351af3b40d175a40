import AbnfMatching.Proofs.EmbeddedMatches
import AbnfMatching.Proofs.GreedyEmbeddings

/-!
# Outcomes for an input inside another one

What callers are told about an element at an offset of an input is compared with
what they are told at the displaced offset of a longer input. If nothing comes
after the shorter input, the outcomes are the same. If something comes after it,
the lengths that are listed for the longer input may go beyond the shorter one;
the others are those listed for the shorter input.
-/

namespace AbnfMatching

section Shows

variable {embedding : Embedding} {ends shown : Ends} {offset : Offset}

theorem Embedding.Shows.offsets_of_atEnd
    (shows : embedding.Shows ends shown) (atEnd : embedding.AtEnd) :
    shown.offsets = ends.offsets.map (displace embedding.lead) := by
  obtain ⟨later, offsets, beyond⟩ := shows.exists_later
  cases later with
  | nil => simpa using offsets
  | cons stop rest =>
      exact absurd atEnd (beyond stop List.mem_cons_self).not_atEnd

/-- Distances from a displaced offset to displaced ends are those in the shorter
input. -/
theorem sub_displace_comp {lead : Nat} :
    (· - displace lead offset) ∘ displace lead = (· - offset) :=
  funext fun _ => displace_sub

end Shows

namespace Exhaustive

/-- No end is found before the offset of a match. -/
theorem run_ordered
    {setting : Setting} {limit : Nat} {occurrence : Occurrence}
    {offset : Offset} {ends : Ends}
    (fits : setting.Addressable)
    (inside : offset.toNat ≤ setting.input.size)
    (returned : (run setting limit occurrence offset).1 = .ok ends) :
    ∀ stop ∈ ends, offset ≤ stop := by
  have retained := (setting.upward_from offset).retains fits
  have confined : Upholds (Confined _ ⟨.empty, #[]⟩)
      (visit setting limit [] occurrence offset) (Ends.LieIn _) :=
    visit_confined retained ⟨UInt64.le_refl offset, inside⟩
  have found := (confined ⟨.empty, #[]⟩ confined_empty).2 ends returned
  exact fun stop member => (found stop member).1

end Exhaustive

namespace Conformance

/-- The embedding is one of an input into another one that are both matched
under the same options and with the same grammar. -/
structure Embeds
    (embedding : Embedding) (options : Options) (grammar : Option Grammar)
    (input longer : Octets) : Prop where
  inner : embedding.inner = setting options grammar input
  outer : embedding.outer = setting options grammar longer

section Embeds

variable {embedding : Embedding} {options : Options}
  {grammar : Option Grammar} {element : Element} {rule : Rule}
  {input longer : Octets} {offset : Offset} {place : Place}

theorem Embeds.inside
    (embeds : Embeds embedding options grammar input longer)
    (inside : offset.toNat ≤ input.length) :
    offset.toNat ≤ embedding.inner.input.size := by
  rw [embeds.inner]
  exact inside_setting options grammar inside

theorem Embeds.run_compares
    (embeds : Embeds embedding options grammar input longer)
    (within : embedding.within element)
    (inside : offset.toNat ≤ input.length) :
    embedding.Compares
      (Exhaustive.run (setting options grammar input) options.limit
        (place.occurrence element) offset)
      (Exhaustive.run (setting options grammar longer) options.limit
        (place.occurrence element) (displace embedding.lead offset)) := by
  rw [← embeds.inner, ← embeds.outer]
  exact embedding.run_compares within (embeds.inside inside)

/-- At the end of a longer input, exhaustive matching finds the displaced ends
or stops with the same fault. -/
theorem Embeds.allEnds_cases
    (embeds : Embeds embedding options grammar input longer) (place : Place)
    (atEnd : embedding.AtEnd) (within : embedding.within element)
    (inside : offset.toNat ≤ input.length) :
    (∃ ends shown,
      (allEnds options grammar element input offset place).outcome = .ok ends ∧
      (allEnds options grammar element longer
        (displace embedding.lead offset) place).outcome = .ok shown ∧
      shown.offsets = ends.offsets.map (displace embedding.lead)) ∨
    ∃ cause,
      (allEnds options grammar element input offset place).outcome =
        .error cause ∧
      (allEnds options grammar element longer
        (displace embedding.lead offset) place).outcome = .error cause := by
  have compares : embedding.Compares
      (Exhaustive.run (setting options grammar input) options.limit
        (place.occurrence element) offset)
      (Exhaustive.run (setting options grammar longer) options.limit
        (place.occurrence element) (displace embedding.lead offset)) :=
    embeds.run_compares within inside
  rw [outcome_allEnds, outcome_allEnds]
  generalize Exhaustive.run (setting options grammar input) options.limit
    (place.occurrence element) offset = performed at compares ⊢
  generalize Exhaustive.run (setting options grammar longer) options.limit
    (place.occurrence element) (displace embedding.lead offset) = performed'
    at compares ⊢
  cases compares with
  | values _ shows =>
      exact Or.inl ⟨_, _, rfl, rfl, shows.offsets_of_atEnd atEnd⟩
  | faults => exact Or.inr ⟨_, rfl, rfl⟩
  | excused cut => exact absurd atEnd cut

theorem Embeds.outcome_greedyEnd
    (embeds : Embeds embedding options grammar input longer)
    (atEnd : embedding.AtEnd) (within : embedding.within element)
    (inside : offset.toNat ≤ input.length) :
    (greedyEnd options grammar element longer
        (displace embedding.lead offset)).outcome =
      (greedyEnd options grammar element input offset).outcome.map
        (Option.map (displace embedding.lead)) := by
  change (Greedy.run (setting options grammar longer) options.limit element
      (displace embedding.lead offset)).1 =
    (Greedy.run (setting options grammar input) options.limit element
      offset).1.map _
  rw [← embeds.inner, ← embeds.outer]
  exact embedding.greedy_run_displaced atEnd within (embeds.inside inside)

/-- At the end of a longer input, as much is consumed as in the shorter one, and
the same lengths are listed. -/
theorem Embeds.matches_eq
    (embeds : Embeds embedding options grammar input longer) (place : Place)
    (atEnd : embedding.AtEnd) (within : embedding.within element)
    (inside : offset.toNat ≤ input.length) :
    (matchElement options grammar element longer
        (displace embedding.lead offset) place).outcome =
      (matchElement options grammar element input offset place).outcome ∧
    (matchLengths options grammar element longer
        (displace embedding.lead offset) place).outcome =
      (matchLengths options grammar element input offset place).outcome := by
  have ends := embeds.allEnds_cases place atEnd within inside
  constructor
  · cases strategy : options.strategy with
    | greedy =>
        rw [outcome_matchElement_greedy strategy,
          outcome_matchElement_greedy strategy,
          embeds.outcome_greedyEnd atEnd within inside]
        rcases (greedyEnd options grammar element input offset).outcome with
          cause | found
        · rfl
        · cases found with
          | none => rfl
          | some stop => exact congrArg (Except.ok ∘ some) displace_sub
    | exhaustive =>
        rw [outcome_matchElement_exhaustive strategy,
          outcome_matchElement_exhaustive strategy]
        rcases ends with ⟨ends, shown, inner, outer, displaced⟩ |
          ⟨cause, inner, outer⟩
        · rw [inner, outer]
          simp only [Except.map, Ends.farthest?, displaced,
            List.getLast?_map, Option.map_map, sub_displace_comp]
        · rw [inner, outer]
          rfl
  · rw [outcome_matchLengths, outcome_matchLengths]
    rcases ends with ⟨ends, shown, inner, outer, displaced⟩ |
      ⟨cause, inner, outer⟩
    · rw [inner, outer]
      simp only [Except.map, displaced, List.map_map, sub_displace_comp]
    · rw [inner, outer]
      rfl

/-- With nothing before or after it, an input is judged like the one in its
place. -/
theorem Embeds.validate_eq
    (embeds : Embeds embedding options grammar input longer)
    (aligned : embedding.lead = 0) (atEnd : embedding.AtEnd)
    (within : embedding.within rule.element) :
    (validate options grammar rule longer place).outcome =
      (validate options grammar rule input place).outcome := by
  have sizes : input.length = longer.length := by
    have sum := atEnd
    unfold Embedding.AtEnd at sum
    rw [aligned, embeds.inner, embeds.outer, size_setting, size_setting] at sum
    omega
  have inside : (0 : Offset).toNat ≤ input.length := Nat.zero_le _
  cases strategy : options.strategy with
  | greedy =>
      have greedy := embeds.outcome_greedyEnd atEnd within inside
      rw [aligned, displace_zero] at greedy
      rw [outcome_validate_greedy strategy, outcome_validate_greedy strategy,
        greedy, sizes]
      rcases (greedyEnd options grammar rule.element input 0).outcome with
        cause | found
      · rfl
      · cases found with
        | none => rfl
        | some stop =>
            exact congrArg (judgeEnd rule.name _ ∘ some) displace_zero
  | exhaustive =>
      have ends := embeds.allEnds_cases place atEnd within inside
      rw [aligned, displace_zero] at ends
      rw [outcome_validate_exhaustive strategy,
        outcome_validate_exhaustive strategy, sizes]
      rcases ends with ⟨ends, shown, inner, outer, displaced⟩ |
        ⟨cause, inner, outer⟩
      · have equal : shown = ends := by
          apply Ends.eq_of_mem_iff
          intro stop
          rw [Ends.mem_def, displaced, Ends.mem_def]
          simp
        rw [inner, outer, equal]
      · rw [inner, outer]

/-- Of the lengths that are listed for a longer input, those that stay inside
the shorter one are listed for the latter. -/
theorem Embeds.matchLengths_inside
    (embeds : Embeds embedding options grammar input longer)
    (within : embedding.within element)
    (inside : offset.toNat ≤ input.length) {lengths : List UInt64}
    (returned : (matchLengths options grammar element longer
      (displace embedding.lead offset) place).outcome = .ok lengths) :
    (matchLengths options grammar element input offset place).outcome =
      .ok (lengths.filter fun length =>
        length.toNat ≤ input.length - offset.toNat) := by
  have size : embedding.inner.input.size = input.length := by
    rw [embeds.inner, size_setting]
  rw [outcome_matchLengths] at returned ⊢
  obtain ⟨shown, found, rfl⟩ := map_eq_ok_iff.mp returned
  have compares : embedding.Compares
      (Exhaustive.run (setting options grammar input) options.limit
        (place.occurrence element) offset)
      (Exhaustive.run (setting options grammar longer) options.limit
        (place.occurrence element) (displace embedding.lead offset)) :=
    embeds.run_compares within inside
  obtain ⟨ends, innerFound, shows⟩ := compares.of_ok found
  obtain ⟨later, offsets, beyond⟩ := shows.exists_later
  have addressable : (setting options grammar input).Addressable := by
    rw [← embeds.inner]
    exact embedding.addressable_inner
  have ordered : ∀ stop ∈ ends, offset ≤ stop :=
    Exhaustive.run_ordered addressable
      (inside_setting options grammar inside) innerFound
  have early : ∀ length ∈ ends.offsets.map (· - offset),
      length.toNat ≤ input.length - offset.toNat := by
    intro length member
    obtain ⟨stop, stopMember, rfl⟩ := List.mem_map.mp member
    have stopInside := shows.inside stop stopMember
    rw [toNat_sub_of_le (ordered stop stopMember)]
    omega
  have late : ∀ length ∈ later.map (· - displace embedding.lead offset),
      ¬ length.toNat ≤ input.length - offset.toNat := by
    intro length member
    obtain ⟨stop, stopMember, rfl⟩ := List.mem_map.mp member
    have after := (beyond stop stopMember).1
    have located := Embedding.toNat_displaced (embeds.inside inside)
    have startBefore : displace embedding.lead offset ≤ stop := by
      rw [UInt64.le_iff_toNat_le, located]
      omega
    rw [toNat_sub_of_le startBefore, located]
    omega
  rw [outcome_allEnds, innerFound, offsets, List.map_append, List.map_map,
    sub_displace_comp, List.filter_append,
    List.filter_eq_self.mpr (by simpa using early),
    List.filter_eq_nil_iff.mpr (by simpa using late), List.append_nil]
  rfl

end Embeds

end Conformance

end AbnfMatching
