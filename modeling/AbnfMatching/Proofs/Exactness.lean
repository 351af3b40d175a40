import AbnfMatching.Proofs.LeftEdges
import AbnfMatching.Proofs.Soundness

/-!
# Without left recursion, everything is found

Exhaustive matching answers a visit that is under way by no ends. If no rule in
reach is left-recursive, no such visit is ever met again: every end set in the
table is then complete, and all lengths that belong to the language of the
element are reported.
-/

namespace AbnfMatching

/-! ## Rules in reach -/

section Reaches

variable {grammar : Option Grammar} {element : Element} {rule : Rule}

theorem Reaches.of_subset
    {part : Element} (subset : part.mentions ⊆ element.mentions)
    (reaches : Reaches grammar part rule) :
    Reaches grammar element rule := by
  induction reaches with
  | directly mentioned meaning =>
      exact .directly (subset mentioned) meaning
  | through _ mentioned meaning inductionHypothesis =>
      exact .through inductionHypothesis mentioned meaning

theorem Reaches.trans
    {middle : Rule}
    (first : Reaches grammar element middle)
    (second : Reaches grammar middle.element rule) :
    Reaches grammar element rule := by
  induction second with
  | directly mentioned meaning =>
      exact .through first mentioned meaning
  | through _ mentioned meaning inductionHypothesis =>
      exact .through inductionHypothesis mentioned meaning

/-- Whatever is reached from below an occurrence is reached from it. -/
theorem Reaches.of_below
    {occurrence part : Occurrence}
    (below : Below grammar occurrence part)
    (reaches : Reaches grammar part.element rule) :
    Reaches grammar occurrence.element rule := by
  cases below with
  | constituent member =>
      exact reaches.of_subset <|
        Element.mentions_subset_of_mem_children
          (Occurrence.element_mem_children member)
  | @meaning name middle shape meaning =>
      have mentioned : name ∈ occurrence.element.mentions := by
        rw [shape]
        exact List.mem_singleton_self name
      exact (Reaches.directly mentioned meaning).trans reaches

end Reaches

/-! ## Exhaustive matching -/

namespace Exhaustive

/-- An occurrence in the input from which no left-recursive rule is reached, and
which the visits under way enclose. -/
structure Steady
    (setting : Setting) (subject : Element) (active : List Visit)
    (occurrence : Occurrence) (offset : Offset) : Prop where
  placed : occurrence.Placed setting.grammar subject
  inside : offset.toNat ≤ setting.input.size
  free : FreeOfLeftRecursion setting.grammar occurrence.element
  encloses : Encloses setting.grammar subject active occurrence offset

section Steady

variable {setting : Setting} {subject : Element} {active : List Visit}
  {occurrence : Occurrence} {offset : Offset}

theorem Steady.asked
    {question : Occurrence × Offset}
    (steady : Steady setting subject active occurrence offset)
    (asks : Asks setting occurrence offset question) :
    Steady setting subject (occurrence.visitAt offset :: active)
      question.1 question.2 :=
  ⟨steady.placed.below asks.below, asks.inside,
    fun rule reaches => steady.free rule (reaches.of_below asks.below),
    steady.encloses.asked steady.placed asks⟩

theorem Steady.not_under_way
    (steady : Steady setting subject active occurrence offset) :
    occurrence.visitAt offset ∉ active := by
  intro again
  obtain ⟨rule, _, _, _, recursive, reaches⟩ :=
    exists_leftRecursive_of_cycle (steady.encloses.cycle steady.placed again)
  exact steady.free rule reaches recursive

/-- A steady visit is answered by the ends of all spans. -/
theorem visit_exact
    (room : Nat) (fits : setting.Addressable)
    (steady : Steady setting subject active occurrence offset) :
    Upholds
      (FiledWell setting.grammar subject fun part start =>
        Bracketed setting (spanReach setting) (part, start))
      (visit setting room active occurrence offset)
      (Bracketed setting (spanReach setting) (occurrence, offset)) := by
  refine visit_bracketed (Steady setting subject) fits
    (fun _ _ _ ready => ready.placed) (fun _ _ _ ready => ready.inside)
    ?_ ?_ ?_ steady
  · intro underWay part start ready again
    exact absurd again ready.not_under_way
  · intro part start stop inside spans
    exact (unfolds_spanReach_iff fits inside).mpr spans
  · intro underWay part start question ready asks
    exact ready.asked asks

theorem run_exact
    {limit : Nat} {ends : Ends}
    (fits : setting.Addressable)
    (placed : occurrence.Placed setting.grammar subject)
    (inside : offset.toNat ≤ setting.input.size)
    (free : FreeOfLeftRecursion setting.grammar occurrence.element)
    (returned : (run setting limit occurrence offset).1 = .ok ends) :
    ∀ stop, stop ∈ ends ↔ Spans setting occurrence.element offset stop := by
  have steady : Steady setting subject [] occurrence offset :=
    ⟨placed, inside, free, encloses_nil⟩
  have upheld := visit_exact limit fits steady ⟨.empty, #[]⟩ filedWell_empty
  have bracketed := upheld.2 ends returned
  exact fun stop => ⟨bracketed.sound stop, bracketed.complete stop⟩

end Steady

end Exhaustive

/-! ## Reported lengths -/

namespace Conformance

/-- Distances from an offset that is not after any end are in order if the ends
are. -/
theorem pairwise_lengths
    {ends : Ends} {offset : Offset}
    (after : ∀ stop ∈ ends, offset ≤ stop) :
    (ends.offsets.map (· - offset)).Pairwise (· < ·) := by
  rw [List.pairwise_map]
  refine List.Pairwise.imp_of_mem ?_ ends.ascending
  intro low high lowMember highMember below
  rw [UInt64.lt_iff_toNat_lt] at below ⊢
  have lowAfter := UInt64.le_iff_toNat_le.mp (after low lowMember)
  rw [toNat_sub_of_le (after low lowMember),
    toNat_sub_of_le (after high highMember)]
  omega

/-- If no rule in reach of the element is left-recursive, the lengths that are
listed are those that belong to the language of the element, in ascending
order. -/
theorem matchLengths_exact
    {options : Options} {grammar : Option Grammar} {element : Element}
    {input : Octets} {offset : Offset} {place : Place} {lengths : List UInt64}
    (fits : input.length < UInt64.size)
    (holds : place.Holds grammar element)
    (inside : offset.toNat ≤ input.length)
    (free : FreeOfLeftRecursion grammar element)
    (returned :
      (matchLengths options grammar element input offset place).outcome =
        .ok lengths) :
    lengths.Pairwise (· < ·) ∧
      ∀ count : Nat, count ∈ lengths.map UInt64.toNat ↔
        Consumes grammar element input offset.toNat count := by
  have insideSetting :
      offset.toNat ≤ (setting options grammar input).input.size := by
    rw [size_setting]
    exact inside
  rw [outcome_matchLengths] at returned
  obtain ⟨ends, found, rfl⟩ := map_eq_ok_iff.mp returned
  have exact : ∀ stop, stop ∈ ends ↔
      Spans (setting options grammar input) element offset stop :=
    Exhaustive.run_exact (addressable_setting options grammar fits)
      holds insideSetting free found
  refine ⟨?_, ?_⟩
  · exact pairwise_lengths fun stop member =>
      ((exact stop).mp member).ordered
  · intro count
    rw [List.map_map, List.mem_map]
    constructor
    · intro listed
      obtain ⟨stop, member, rfl⟩ := listed
      exact consumes_of_spans ((exact stop).mp member)
    · intro consumes
      obtain ⟨stop, spans, rfl⟩ :=
        exists_spans_of_consumes options fits consumes
      exact ⟨stop, (exact stop).mpr spans, rfl⟩

/-- The rule `ys = "x" ys / "x"`, which refers to itself after an octet. -/
def growingRight : Rule :=
  let name := RuleName.ofText "ys"
  let letter := Element.terminal (.caseless (octets "x"))
  ⟨name, .alternation [.sequence [letter, .reference name], letter]⟩

theorem not_leftEdge_growingRight
    {grammar : Option Grammar} {name : RuleName} :
    ¬ LeftEdge grammar growingRight.element name := by
  intro edge
  cases edge
  next branch member edge =>
    simp only [List.mem_cons, List.not_mem_nil, or_false] at member
    rcases member with rfl | rfl
    · cases edge with
      | head letterEdge =>
          cases letterEdge
      | tail skipped _ =>
          exact absurd (derives_terminal_iff.mp skipped) (by decide)
    · cases edge

theorem eq_growingRight_of_ruleOf
    {name : RuleName} {rule : Rule}
    (meaning : ruleOf (some (.ofRules [growingRight])) name = some rule) :
    rule = growingRight := by
  unfold ruleOf Grammar.ofRules Grammar.addAll Grammar.lookup? at meaning
  rw [Option.bind_some, List.foldl_cons, List.foldl_nil,
    Grammar.find?_add] at meaning
  split at meaning
  · exact (Option.some.inj meaning).symm
  · cases meaning

theorem freeOfLeftRecursion_growingRight {element : Element} :
    FreeOfLeftRecursion (some (.ofRules [growingRight])) element := by
  intro rule reaches recursive
  have sole : rule = growingRight := by
    cases reaches with
    | directly _ meaning => exact eq_growingRight_of_ruleOf meaning
    | through _ _ meaning => exact eq_growingRight_of_ruleOf meaning
  obtain ⟨_, ⟨name, edge, _⟩, _⟩ :=
    Relation.TransGen.head'_iff.mp recursive
  rw [sole] at edge
  exact not_leftEdge_growingRight edge

theorem matchLengths_exact_growingRight :
    (matchLengths {} (some (.ofRules [growingRight])) growingRight.element
      (octets "xx") 0).outcome = .ok [1, 2] ∧
    ∀ count : Nat, count ∈ [1, 2] ↔
      Consumes (some (.ofRules [growingRight])) growingRight.element
        (octets "xx") 0 count := by
  have returned :
      (matchLengths {} (some (.ofRules [growingRight])) growingRight.element
        (octets "xx") 0).outcome = .ok [1, 2] := by
    rfl
  have fits : (octets "xx").length < UInt64.size := by
    decide
  have inside : (0 : Offset).toNat ≤ (octets "xx").length :=
    Nat.zero_le _
  have exact := matchLengths_exact fits Place.holds_tested inside
    freeOfLeftRecursion_growingRight returned
  exact ⟨returned, exact.2⟩

end Conformance

end AbnfMatching
