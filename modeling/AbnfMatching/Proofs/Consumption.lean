import AbnfMatching.Conformance.Basic
import AbnfMatching.Proofs.EndSets
import AbnfMatching.Proofs.Inquiry
import AbnfMatching.Proofs.Spans

/-!
# Consumed lengths

Callers ask how many octets an element consumes at an offset. The lengths that
are reported to them are the distances from that offset to the ends that
matching finds.
-/

namespace AbnfMatching

/-- The given number of octets from the offset on are there and belong to the
language of the element. -/
structure Consumes
    (grammar : Option Grammar) (element : Element) (input : Octets)
    (offset length : Nat) : Prop where
  inside : offset + length ≤ input.length
  derives : Derives grammar element ((input.drop offset).take length)

theorem toNat_sub_of_le {start stop : Offset} (ordered : start ≤ stop) :
    (stop - start).toNat = stop.toNat - start.toNat :=
  UInt64.toNat_sub_of_le stop start ordered

namespace Conformance

section Setting

variable {options : Options} {grammar : Option Grammar} {input : Octets}

@[simp]
theorem size_setting :
    (setting options grammar input).input.size = input.length := by
  simp [setting]

theorem grammar_setting :
    (setting options grammar input).grammar = grammar :=
  rfl

theorem inside_setting
    (options : Options) (grammar : Option Grammar) {offset : Offset}
    (inside : offset.toNat ≤ input.length) :
    offset.toNat ≤ (setting options grammar input).input.size := by
  rw [size_setting]
  exact inside

theorem addressable_setting
    (options : Options) (grammar : Option Grammar)
    (fits : input.length < UInt64.size) :
    (setting options grammar input).Addressable := by
  unfold Setting.Addressable
  rw [size_setting]
  exact fits

theorem consumes_of_spans
    {element : Element} {start stop : Offset}
    (spans : Spans (setting options grammar input) element start stop) :
    Consumes grammar element input start.toNat (stop - start).toNat := by
  have startLe := UInt64.le_iff_toNat_le.mp spans.ordered
  have stopInside := spans.inside
  rw [size_setting] at stopInside
  refine ⟨?_, ?_⟩
  · rw [toNat_sub_of_le spans.ordered]
    omega
  · have derives := spans.derives
    rw [toNat_sub_of_le spans.ordered]
    simpa [Setting.between, setting] using derives

theorem exists_spans_of_consumes
    (options : Options) {element : Element} {start : Offset} {length : Nat}
    (fits : input.length < UInt64.size)
    (consumes : Consumes grammar element input start.toNat length) :
    ∃ stop, Spans (setting options grammar input) element start stop ∧
      (stop - start).toNat = length := by
  have inside := consumes.inside
  have located :
      (UInt64.ofNat (start.toNat + length)).toNat = start.toNat + length :=
    UInt64.toNat_ofNat_of_lt' (by omega)
  have ordered : start ≤ UInt64.ofNat (start.toNat + length) := by
    rw [UInt64.le_iff_toNat_le, located]
    omega
  refine ⟨UInt64.ofNat (start.toNat + length), ⟨ordered, ?_, ?_⟩, ?_⟩
  · rw [located, size_setting]
    exact inside
  · have derives := consumes.derives
    rw [Setting.between, located, Nat.add_sub_cancel_left]
    simpa [setting] using derives
  · rw [toNat_sub_of_le ordered, located]
    omega

end Setting

theorem map_eq_ok_iff
    {α β : Type} {result : Except Fault α} {change : α → β} {value : β} :
    result.map change = .ok value ↔
      ∃ before, result = .ok before ∧ change before = value := by
  cases result <;> simp [Except.map]

theorem map_eq_error_iff
    {α β : Type} {result : Except Fault α} {change : α → β} {cause : Fault} :
    result.map change = .error cause ↔ result = .error cause := by
  cases result <;> simp [Except.map]

section Outcomes

variable {options : Options} {grammar : Option Grammar} {element : Element}
  {input : Octets} {offset : Offset} {place : Place}

theorem outcome_allEnds :
    (allEnds options grammar element input offset place).outcome =
      (Exhaustive.run (setting options grammar input) options.limit
        (place.occurrence element) offset).1 :=
  rfl

theorem outcome_matchLengths :
    (matchLengths options grammar element input offset place).outcome =
      (allEnds options grammar element input offset place).outcome.map
        fun ends => ends.offsets.map (· - offset) :=
  rfl

theorem outcome_matchElement_greedy (greedy : options.strategy = .greedy) :
    (matchElement options grammar element input offset place).outcome =
      (greedyEnd options grammar element input offset).outcome.map
        fun stop => stop.map (· - offset) := by
  rw [matchElement, greedy]

theorem outcome_matchElement_exhaustive
    (exhaustive : options.strategy = .exhaustive) :
    (matchElement options grammar element input offset place).outcome =
      (allEnds options grammar element input offset place).outcome.map
        fun ends => ends.farthest?.map (· - offset) := by
  rw [matchElement, exhaustive]

theorem outcome_validate_greedy
    {rule : Rule} (greedy : options.strategy = .greedy) :
    (validate options grammar rule input place).outcome =
      ((greedyEnd options grammar rule.element input 0).outcome.mapError
        .fault >>= judgeEnd rule.name (UInt64.ofNat input.length)) := by
  rw [validate, greedy]

theorem outcome_validate_exhaustive
    {rule : Rule} (exhaustive : options.strategy = .exhaustive) :
    (validate options grammar rule input place).outcome =
      ((allEnds options grammar rule.element input 0 place).outcome.mapError
        .fault >>= judgeEnds rule.name (UInt64.ofNat input.length)) := by
  rw [validate, exhaustive]

/-- A check by name is a check of the rule in its own tree. -/
theorem outcome_validateNamed
    {present : Grammar} {name : Octets} {rule : Rule}
    (found : present.fetch name = .ok rule) :
    (validateNamed options present name input).outcome =
      (validate options (some present) rule input
        (.rule rule.key)).outcome := by
  rw [validateNamed, found]

end Outcomes

end Conformance

end AbnfMatching
