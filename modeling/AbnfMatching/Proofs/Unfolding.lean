import AbnfMatching.Matching.Visit
import AbnfMatching.Proofs.Spans

/-!
# Unfolding an occurrence by one level

Suppose that it is known which ends each occurrence reaches from each offset.
What an occurrence reaches is then determined by what the occurrences right
below it reach. Spans are a fixed point of this unfolding; what an engine finds
is compared with it level by level.
-/

namespace AbnfMatching

/-- Which ends are reached by an occurrence from an offset. -/
abbrev Reach :=
  Occurrence → Offset → Offset → Prop

/-- Occurrences that are passed one after the other, each beginning where the
one before it ends. -/
def Passes (reach : Reach) : List Occurrence → Offset → Offset → Prop
  | [], start, stop => stop = start
  | head :: tail, start, stop =>
      ∃ middle, reach head start middle ∧ Passes reach tail middle stop

section Passes

variable {reach wider : Reach} {start stop : Offset}

theorem passes_append_iff {front back : List Occurrence} :
    Passes reach (front ++ back) start stop ↔
      ∃ middle, Passes reach front start middle ∧
        Passes reach back middle stop := by
  induction front generalizing start with
  | nil =>
      simp [Passes]
  | cons head tail inductionHypothesis =>
      simp only [List.cons_append, Passes, inductionHypothesis]
      constructor
      · intro passes
        obtain ⟨first, headPass, middle, tailPass, backPass⟩ := passes
        exact ⟨middle, ⟨first, headPass, tailPass⟩, backPass⟩
      · intro passes
        obtain ⟨middle, ⟨first, headPass, tailPass⟩, backPass⟩ := passes
        exact ⟨first, headPass, middle, tailPass, backPass⟩

/-- Widening may rely on a property of offsets that holds at the start and is
handed on from pass to pass. -/
theorem Passes.mono
    {occurrences : List Occurrence} {within : Offset → Prop}
    (passes : Passes reach occurrences start stop)
    (begins : within start)
    (widen : ∀ part ∈ occurrences, ∀ start, within start →
      ∀ stop, reach part start stop → wider part start stop ∧ within stop) :
    Passes wider occurrences start stop := by
  induction occurrences generalizing start with
  | nil =>
      exact passes
  | cons head tail inductionHypothesis =>
      obtain ⟨middle, headPass, tailPass⟩ := passes
      obtain ⟨headWider, continues⟩ :=
        widen head List.mem_cons_self start begins middle headPass
      refine ⟨middle, headWider, ?_⟩
      exact inductionHypothesis tailPass continues fun part member =>
        widen part (List.mem_cons_of_mem head member)

/-- An occurrence that can be passed on the spot can be passed there any number
of times. -/
theorem passes_replicate_self
    {part : Occurrence} (stays : reach part start start) (count : Nat) :
    Passes reach (List.replicate count part) start start := by
  induction count with
  | zero => rfl
  | succ count inductionHypothesis => exact ⟨start, stays, inductionHypothesis⟩

theorem passes_replicate_add_iff {part : Occurrence} {first second : Nat} :
    Passes reach (List.replicate (first + second) part) start stop ↔
      ∃ middle, Passes reach (List.replicate first part) start middle ∧
        Passes reach (List.replicate second part) middle stop := by
  rw [← List.replicate_append_replicate, passes_append_iff]

/-- Passing the same occurrence again and again never leads out of a set of
offsets that a single pass does not lead out of. -/
theorem Passes.of_closed
    {part : Occurrence} {count : Nat} (within : Offset → Prop)
    (passes : Passes reach (List.replicate count part) start stop)
    (begins : within start)
    (closed : ∀ start, within start →
      ∀ stop, reach part start stop → within stop) :
    within stop := by
  induction count generalizing start with
  | zero =>
      exact passes ▸ begins
  | succ count inductionHypothesis =>
      obtain ⟨middle, headPass, tailPass⟩ := passes
      exact inductionHypothesis tailPass (closed start begins middle headPass)

theorem passes_singleton_iff {part : Occurrence} :
    Passes reach [part] start stop ↔ reach part start stop := by
  simp [Passes]

end Passes

/-- What an occurrence reaches, given what the occurrences below it reach. -/
def Unfolds
    (setting : Setting) (reach : Reach) (occurrence : Occurrence)
    (start stop : Offset) : Prop :=
  match occurrence.element with
  | .terminal value => setting.terminalEnd value start = .ok (some stop)
  | .reference name =>
      ∃ rule, ruleOf setting.grammar name = some rule ∧
        reach (.root (.rule rule.key) rule.element) start stop
  | .sequence _ => Passes reach occurrence.children start stop
  | .alternation _ => ∃ part ∈ occurrence.children, reach part start stop
  | .option _ =>
      stop = start ∨ ∃ part ∈ occurrence.children, reach part start stop
  | .repetition bounds _ =>
      ∃ count, bounds.Allows count ∧ ∃ part ∈ occurrence.children,
        Passes reach (List.replicate count part) start stop

theorem ruleOf_of_resolve
    {setting : Setting} {name : RuleName} {rule : Rule}
    (resolved : setting.resolve name = .ok rule) :
    ruleOf setting.grammar name = some rule := by
  unfold Setting.resolve at resolved
  split at resolved
  · cases resolved
  · next grammar present =>
      unfold Grammar.fetch at resolved
      rw [ruleOf, present, Option.bind_some]
      split at resolved
      · next found foundRule =>
          cases resolved
          exact foundRule
      · cases resolved

/-- The occurrences right below another one: its constituents, and for a
reference the root of the rule that it means. -/
inductive Below (grammar : Option Grammar) (occurrence : Occurrence) :
    Occurrence → Prop
  | constituent {part : Occurrence} :
      part ∈ occurrence.children →
      Below grammar occurrence part
  | meaning {name : RuleName} {rule : Rule} :
      occurrence.element = .reference name →
      ruleOf grammar name = some rule →
      Below grammar occurrence (.root (.rule rule.key) rule.element)

namespace Occurrence

@[simp]
theorem map_element_siblings
    (tree : Tree) (index : Nat) (elements : List Element) :
    (siblings tree index elements).map Occurrence.element = elements := by
  induction elements generalizing index with
  | nil => rfl
  | cons head tail inductionHypothesis =>
      simp [siblings, inductionHypothesis]

theorem map_element_children (occurrence : Occurrence) :
    occurrence.children.map Occurrence.element =
      occurrence.element.children :=
  map_element_siblings _ _ _

theorem element_mem_children
    {occurrence part : Occurrence} (member : part ∈ occurrence.children) :
    part.element ∈ occurrence.element.children := by
  rw [← map_element_children]
  exact List.mem_map_of_mem member

/-- The operand of an option or a repetition is its only constituent. -/
theorem children_of_operand
    (occurrence : Occurrence) {body : Element}
    (operand : occurrence.element.children = [body]) :
    occurrence.children =
      [⟨occurrence.tree, occurrence.index + 1, body⟩] := by
  rw [children, operand]
  rfl

end Occurrence

section Unfolds

variable {setting : Setting} {reach wider : Reach} {occurrence : Occurrence}
  {start stop : Offset}

theorem Unfolds.mono
    {within : Offset → Prop}
    (unfolds : Unfolds setting reach occurrence start stop)
    (begins : within start)
    (widen : ∀ part, Below setting.grammar occurrence part →
      ∀ start, within start →
      ∀ stop, reach part start stop → wider part start stop ∧ within stop) :
    Unfolds setting wider occurrence start stop := by
  have widenChild :
      ∀ part ∈ occurrence.children, ∀ start, within start →
        ∀ stop, reach part start stop →
          wider part start stop ∧ within stop :=
    fun part member => widen part (.constituent member)
  unfold Unfolds at unfolds ⊢
  split at unfolds
  · exact unfolds
  · next shape =>
      obtain ⟨rule, meaning, reached⟩ := unfolds
      exact ⟨rule, meaning,
        (widen _ (.meaning shape meaning) start begins stop reached).1⟩
  · exact unfolds.mono begins widenChild
  · obtain ⟨part, member, reached⟩ := unfolds
    exact ⟨part, member,
      (widenChild part member start begins stop reached).1⟩
  · rcases unfolds with skipped | ⟨part, member, reached⟩
    · exact Or.inl skipped
    · exact Or.inr ⟨part, member,
        (widenChild part member start begins stop reached).1⟩
  · obtain ⟨count, allowed, part, member, passes⟩ := unfolds
    refine ⟨count, allowed, part, member, passes.mono begins ?_⟩
    intro copy copyMember
    rw [List.eq_of_mem_replicate copyMember]
    exact widenChild part member

theorem Unfolds.widen
    (unfolds : Unfolds setting reach occurrence start stop)
    (widen : ∀ part, Below setting.grammar occurrence part →
      ∀ start stop, reach part start stop → wider part start stop) :
    Unfolds setting wider occurrence start stop := by
  have widenEverywhere : ∀ part, Below setting.grammar occurrence part →
      ∀ start, True → ∀ stop, reach part start stop →
        wider part start stop ∧ True :=
    fun part below start _ stop reached =>
      ⟨widen part below start stop reached, trivial⟩
  exact unfolds.mono trivial widenEverywhere

end Unfolds

/-- An occurrence reaches the ends of its spans. -/
def spanReach (setting : Setting) : Reach :=
  fun occurrence => Spans setting occurrence.element

section SpanReach

variable {setting : Setting} {start stop : Offset}

theorem Passes.ordered_inside
    {occurrences : List Occurrence}
    (passes : Passes (spanReach setting) occurrences start stop)
    (inside : start.toNat ≤ setting.input.size) :
    start ≤ stop ∧ stop.toNat ≤ setting.input.size := by
  induction occurrences generalizing start with
  | nil =>
      cases passes
      exact ⟨UInt64.le_refl _, inside⟩
  | cons head tail inductionHypothesis =>
      obtain ⟨middle, headPass, tailPass⟩ := passes
      obtain ⟨ordered, stopInside⟩ :=
        inductionHypothesis tailPass headPass.inside
      exact ⟨UInt64.le_trans headPass.ordered ordered, stopInside⟩

/-- Passing occurrences one after the other is a span of the sequence of their
elements. -/
theorem passes_spanReach_iff
    {occurrences : List Occurrence}
    (inside : start.toNat ≤ setting.input.size) :
    Passes (spanReach setting) occurrences start stop ↔
      Spans setting (.sequence (occurrences.map Occurrence.element))
        start stop := by
  induction occurrences generalizing start with
  | nil =>
      exact (spans_sequence_nil_iff inside).symm
  | cons head tail inductionHypothesis =>
      rw [List.map_cons, spans_sequence_cons_iff]
      refine exists_congr fun middle => and_congr_right fun headSpans => ?_
      exact inductionHypothesis headSpans.inside

/-- The spans of an occurrence are made of the spans of the occurrences below
it. -/
theorem unfolds_spanReach_iff
    {occurrence : Occurrence} (fits : setting.Addressable)
    (inside : start.toNat ≤ setting.input.size) :
    Unfolds setting (spanReach setting) occurrence start stop ↔
      Spans setting occurrence.element start stop := by
  obtain ⟨tree, index, element⟩ := occurrence
  cases element with
  | terminal value =>
      exact terminalEnd_eq_some_iff fits inside
  | reference name =>
      constructor
      · intro unfolds
        obtain ⟨rule, meaning, ordered, stopInside, derivation⟩ := unfolds
        exact ⟨ordered, stopInside, .reference meaning derivation⟩
      · intro spans
        obtain ⟨ordered, stopInside, derivation⟩ := spans
        obtain ⟨rule, meaning, inner⟩ := derives_reference_iff.mp derivation
        exact ⟨rule, meaning, ordered, stopInside, inner⟩
  | sequence parts =>
      have elements :=
        Occurrence.map_element_children ⟨tree, index, .sequence parts⟩
      change Passes (spanReach setting) _ start stop ↔ _
      rw [passes_spanReach_iff inside, elements]
      rfl
  | alternation branches =>
      have elements :=
        Occurrence.map_element_children ⟨tree, index, .alternation branches⟩
      rw [Element.children] at elements
      rw [spans_alternation_iff]
      constructor
      · intro unfolds
        obtain ⟨part, member, spans⟩ := unfolds
        exact ⟨part.element, Occurrence.element_mem_children member, spans⟩
      · intro alternative
        obtain ⟨branch, branchMember, spans⟩ := alternative
        rw [← elements] at branchMember
        obtain ⟨part, member, rfl⟩ := List.mem_map.mp branchMember
        exact ⟨part, member, spans⟩
  | option body =>
      have sole :=
        Occurrence.children_of_operand ⟨tree, index, .option body⟩ rfl
      simp only [Unfolds, sole, List.mem_singleton, exists_eq_left]
      constructor
      · intro unfolds
        rcases unfolds with rfl | ⟨ordered, stopInside, derivation⟩
        · exact (spans_self_iff inside).mpr .absent
        · exact ⟨ordered, stopInside, .present derivation⟩
      · intro spans
        obtain ⟨ordered, stopInside, derivation⟩ := spans
        rcases derives_option_iff.mp derivation with nothing | inner
        · left
          exact Setting.eq_of_between_eq_nil ordered stopInside nothing
        · exact Or.inr ⟨ordered, stopInside, inner⟩
  | repetition bounds body =>
      have sole := Occurrence.children_of_operand
        ⟨tree, index, .repetition bounds body⟩ rfl
      simp only [Unfolds, sole, List.mem_singleton, exists_eq_left,
        passes_spanReach_iff inside, List.map_replicate]
      constructor
      · intro unfolds
        obtain ⟨count, allowed, ordered, stopInside, derivation⟩ := unfolds
        exact ⟨ordered, stopInside, .repeated allowed derivation⟩
      · intro spans
        obtain ⟨ordered, stopInside, derivation⟩ := spans
        obtain ⟨count, allowed, inner⟩ :=
          derives_repetition_iff.mp derivation
        exact ⟨count, allowed, ordered, stopInside, inner⟩

/-- Whatever reaches nothing but spans from offsets in the input still does so
one level up. -/
theorem spans_of_unfolds
    {reach : Reach} {occurrence : Occurrence} (fits : setting.Addressable)
    (inside : start.toNat ≤ setting.input.size)
    (sound : ∀ part, Below setting.grammar occurrence part →
      ∀ start, start.toNat ≤ setting.input.size →
      ∀ stop, reach part start stop → spanReach setting part start stop)
    (unfolds : Unfolds setting reach occurrence start stop) :
    Spans setting occurrence.element start stop := by
  have widen :
      ∀ part, Below setting.grammar occurrence part →
        ∀ start : Offset, start.toNat ≤ setting.input.size →
        ∀ stop, reach part start stop →
          spanReach setting part start stop ∧
            stop.toNat ≤ setting.input.size := by
    intro part below start startInside stop reached
    have spans := sound part below start startInside stop reached
    exact ⟨spans, spans.inside⟩
  exact (unfolds_spanReach_iff fits inside).mp (unfolds.mono inside widen)

end SpanReach

end AbnfMatching
