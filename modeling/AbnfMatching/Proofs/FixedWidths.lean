import AbnfMatching.Proofs.Exactness
import AbnfMatching.Proofs.Faults
import AbnfMatching.Proofs.GreedyAmongAll

/-!
# Elements of fixed width

If all words of an element have the same length, and so do those of its parts,
then greedy matching has no choice to regret: a part that matches can only end
in one place. Elements of this kind that refer to no rules are matched exactly
by either strategy, with as many levels as they have nodes. A check against such
a rule accepts the input, finds it incomplete or rejects it according to the
octets at its beginning.
-/

namespace AbnfMatching

/-- All words of the element have the given length, on account of the lengths of
its terminals. Rules are not referred to. -/
inductive FixedWidth : Element → Nat → Prop
  | terminal (value : Terminal) :
      FixedWidth (.terminal value) value.length
  | nothing :
      FixedWidth (.sequence []) 0
  | inTurn {head : Element} {tail : List Element} {width rest : Nat} :
      FixedWidth head width →
      FixedWidth (.sequence tail) rest →
      FixedWidth (.sequence (head :: tail)) (width + rest)
  | oneOf {branches : List Element} {width : Nat} :
      (∀ branch ∈ branches, FixedWidth branch width) →
      FixedWidth (.alternation branches) width

section FixedWidth

variable {element : Element} {width : Nat}

theorem FixedWidth.length_eq
    {grammar : Option Grammar} {word : Octets}
    (fixed : FixedWidth element width)
    (derives : Derives grammar element word) :
    word.length = width := by
  induction fixed generalizing word with
  | terminal value =>
      exact Terminal.length_of_accepts (derives_terminal_iff.mp derives)
  | nothing =>
      rw [derives_sequence_nil_iff.mp derives, List.length_nil]
  | inTurn _ _ headHypothesis tailHypothesis =>
      obtain ⟨first, rest, rfl, headDerives, tailDerives⟩ :=
        derives_sequence_cons_iff.mp derives
      rw [List.length_append, headHypothesis headDerives,
        tailHypothesis tailDerives]
  | oneOf _ inductionHypothesis =>
      obtain ⟨branch, member, derives⟩ := derives_alternation_iff.mp derives
      exact inductionHypothesis branch member derives

theorem FixedWidth.mentions_eq_nil (fixed : FixedWidth element width) :
    element.mentions = [] := by
  induction fixed with
  | terminal value => rfl
  | nothing => rfl
  | inTurn _ _ headHypothesis tailHypothesis =>
      rw [Element.mentions] at tailHypothesis ⊢
      rw [Element.mentionsOfAll, headHypothesis, tailHypothesis,
        List.append_nil]
  | oneOf _ inductionHypothesis =>
      rw [Element.mentions, Element.mentionsOfAll_eq_flatMap,
        List.flatMap_eq_nil_iff]
      exact inductionHypothesis

end FixedWidth

section Spans

variable {setting : Setting} {start stop : Offset}

/-- Where an element of fixed width ends is determined by where it starts. -/
theorem FixedWidth.stop_eq
    {element : Element} {width : Nat}
    (fixed : FixedWidth element width)
    (spans : Spans setting element start stop) :
    stop.toNat = start.toNat + width := by
  have length := fixed.length_eq spans.derives
  have ordered := UInt64.le_iff_toNat_le.mp spans.ordered
  rw [Setting.length_between spans.inside] at length
  omega

end Spans

/-- No rule is reached without references. -/
theorem not_reaches_of_plain
    {grammar : Option Grammar} {element : Element} {rule : Rule}
    (plain : element.mentions = []) :
    ¬ Reaches grammar element rule := by
  intro reaches
  induction reaches with
  | directly mentioned _ =>
      rw [plain] at mentioned
      cases mentioned
  | through _ _ _ inductionHypothesis => exact inductionHypothesis

/-- What has been found tells whether the element matches: a found end is an end
of the element, and it has no end if none was found. -/
def Tells
    (setting : Setting) (element : Element) (start : Offset) :
    Option Offset → Prop
  | some stop => Spans setting element start stop
  | none => ∀ stop, ¬ Spans setting element start stop

section Tells

variable {setting : Setting} {start : Offset}

/-- If the first branch does not match, what is found among the others tells
whether any branch matches. -/
theorem tells_cons_of_none
    {head : Element} {tail : List Element} {found : Option Offset}
    (headTells : Tells setting head start none)
    (tailTells : Tells setting (.alternation tail) start found) :
    Tells setting (.alternation (head :: tail)) start found := by
  cases found with
  | some stop =>
      obtain ⟨branch, member, spans⟩ := spans_alternation_iff.mp tailTells
      exact spans_alternation_iff.mpr
        ⟨branch, List.mem_cons_of_mem head member, spans⟩
  | none =>
      intro stop spans
      obtain ⟨branch, member, branchSpans⟩ := spans_alternation_iff.mp spans
      rcases List.mem_cons.mp member with rfl | inTail
      · exact headTells stop branchSpans
      · exact tailTells stop
          (spans_alternation_iff.mpr ⟨branch, inTail, branchSpans⟩)

/-- A first part of fixed width leaves one place only for the others to start
from. -/
theorem tells_sequence_cons
    {head : Element} {tail : List Element} {width : Nat} {middle : Offset}
    {found : Option Offset}
    (fixed : FixedWidth head width)
    (headSpans : Spans setting head start middle)
    (tailTells : Tells setting (.sequence tail) middle found) :
    Tells setting (.sequence (head :: tail)) start found := by
  cases found with
  | some stop =>
      exact spans_sequence_cons_iff.mpr ⟨middle, headSpans, tailTells⟩
  | none =>
      intro stop spans
      obtain ⟨other, otherSpans, tailSpans⟩ :=
        spans_sequence_cons_iff.mp spans
      have same : other = middle := by
        apply UInt64.toNat.inj
        rw [fixed.stop_eq otherSpans, fixed.stop_eq headSpans]
      rw [same] at tailSpans
      exact tailTells stop tailSpans

end Tells

/-! ## Greedy matching -/

namespace Greedy

section Yields

variable {setting : Setting} {room : Nat} {offset : Offset}

/-- The first branch that matches is found; if none is found, no branch
matches. -/
theorem yields_firstOf
    {branches : List Element}
    (answered : ∀ branch ∈ branches, ∃ found,
      Settles setting room (branch, offset) found ∧
        Tells setting branch offset found) :
    ∃ found,
      (firstOf askMatch branches offset).Yields (Settles setting room) found ∧
      Tells setting (.alternation branches) offset found := by
  induction branches with
  | nil =>
      refine ⟨none, .done none, ?_⟩
      intro stop spans
      obtain ⟨branch, member, _⟩ := spans_alternation_iff.mp spans
      cases member
  | cons head tail inductionHypothesis =>
      obtain ⟨found, settles, tells⟩ := answered head List.mem_cons_self
      cases found with
      | some stop =>
          refine ⟨some stop, Inquiry.yields_bind_iff.mpr
            ⟨_, Inquiry.yields_question_iff.mpr settles, .done _⟩, ?_⟩
          exact spans_alternation_iff.mpr ⟨head, List.mem_cons_self, tells⟩
      | none =>
          obtain ⟨other, yields, otherTells⟩ :=
            inductionHypothesis fun branch member =>
              answered branch (List.mem_cons_of_mem head member)
          refine ⟨other, Inquiry.yields_bind_iff.mpr
            ⟨_, Inquiry.yields_question_iff.mpr settles, yields⟩, ?_⟩
          exact tells_cons_of_none tells otherTells

/-- Greedy matching of an element of fixed width comes to an end with as many
levels as the element has nodes, and it tells whether the element matches. -/
theorem settles_of_fixedWidth
    {element : Element} {width : Nat}
    (fits : setting.Addressable)
    (inside : offset.toNat ≤ setting.input.size)
    (fixed : FixedWidth element width) (enough : element.size ≤ room) :
    ∃ found, Settles setting room (element, offset) found ∧
      Tells setting element offset found := by
  obtain ⟨room, rfl⟩ : ∃ less, room = less + 1 :=
    Nat.exists_eq_add_one_of_ne_zero
      (by have := element.size_pos; omega)
  induction fixed generalizing room offset with
  | terminal value =>
      rcases result : setting.terminalEnd value offset with cause | found
      · exact absurd result (Setting.terminalEnd_ne_error inside)
      · refine ⟨found, Inquiry.yields_lift_iff.mpr result, ?_⟩
        cases found with
        | some stop => exact (terminalEnd_eq_some_iff fits inside).mp result
        | none =>
            intro stop spans
            rw [(terminalEnd_eq_some_iff fits inside).mpr spans] at result
            cases result
  | nothing =>
      refine ⟨some offset, .done _, UInt64.le_refl offset, inside, ?_⟩
      rw [Setting.between_self]
      exact .nothing
  | @inTurn head tail _ _ headFixed _ headHypothesis tailHypothesis =>
      -- The other parts are matched on the same level, as a sequence of their
      -- own, which has fewer nodes than the whole.
      simp only [Element.size, Element.sizeOfAll] at enough tailHypothesis
      have headSize := head.size_pos
      obtain ⟨less, rfl⟩ : ∃ less, room = less + 1 :=
        Nat.exists_eq_add_one_of_ne_zero (by omega)
      obtain ⟨found, settles, tells⟩ :=
        headHypothesis inside less (by omega)
      cases found with
      | none =>
          refine ⟨none, Inquiry.yields_bind_iff.mpr
            ⟨_, Inquiry.yields_question_iff.mpr settles, .done _⟩, ?_⟩
          intro stop spans
          obtain ⟨middle, headSpans, _⟩ := spans_sequence_cons_iff.mp spans
          exact tells middle headSpans
      | some middle =>
          obtain ⟨stop, yields, tailTells⟩ :=
            tailHypothesis tells.inside (less + 1) (by omega)
          refine ⟨stop, Inquiry.yields_bind_iff.mpr
            ⟨_, Inquiry.yields_question_iff.mpr settles, yields⟩, ?_⟩
          exact tells_sequence_cons headFixed tells tailTells
  | @oneOf branches _ _ inductionHypothesis =>
      simp only [Element.size] at enough
      refine yields_firstOf ?_
      intro branch member
      have branchSize := Element.size_le_sizeOfAll member
      have positive := branch.size_pos
      obtain ⟨less, rfl⟩ : ∃ less, room = less + 1 :=
        Nat.exists_eq_add_one_of_ne_zero (by omega)
      exact inductionHypothesis branch member inside less (by omega)

end Yields

end Greedy

/-! ## Exhaustive matching -/

namespace Exhaustive

/-- Exhaustive matching of an element without references comes to an end with as
many levels as the element has nodes, and it finds all ends. -/
theorem run_exact_of_plain
    {setting : Setting} {limit : Nat} {place : Place} {element : Element}
    {offset : Offset}
    (fits : setting.Addressable)
    (holds : place.Holds setting.grammar element)
    (inside : offset.toNat ≤ setting.input.size)
    (plain : element.mentions = []) (enough : element.size ≤ limit) :
    ∃ ends, (run setting limit (place.occurrence element) offset).1 = .ok ends ∧
      ∀ stop, stop ∈ ends ↔ Spans setting element offset stop := by
  have free : FreeOfLeftRecursion setting.grammar element := by
    intro rule reaches
    exact absurd reaches (not_reaches_of_plain plain)
  rcases returned : (run setting limit (place.occurrence element) offset).1 with
    cause | ends
  · -- One level down the part that is visited has fewer nodes, so that no fault
    -- is left: there are levels enough, and nothing has to be resolved.
    exfalso
    refine fault_of_visit element (fun _ => False)
      (fun room _ occurrence start =>
        occurrence.Placed setting.grammar element ∧
          start.toNat ≤ setting.input.size ∧
          occurrence.element.mentions = [] ∧ occurrence.element.size ≤ room)
      fits ?_ ?_ ?_ ?_ ⟨holds, inside, plain, enough⟩ filedWell_empty
      returned
    · intro room active occurrence start ready
      exact ⟨ready.1, ready.2.1⟩
    · intro active occurrence start ready _
      have positive := occurrence.element.size_pos
      have := ready.2.2.2
      omega
    · rintro room active ⟨occurrenceTree, index, part⟩ start cause ready denies
      obtain ⟨_, startInside, partPlain, _⟩ := ready
      dsimp only at denies partPlain
      cases denies with
      | slice failed => exact Setting.terminalEnd_ne_error startInside failed
      | rule failed => cases partPlain
    · rintro room active occurrence start ⟨part, begin⟩ ready _ asks
      obtain ⟨isPlaced, _, isPlain, levels⟩ := ready
      obtain ⟨below, _, beginInside, _⟩ := asks
      dsimp only at below beginInside
      refine ⟨isPlaced.below below, beginInside, ?_⟩
      change part.element.mentions = [] ∧ part.element.size ≤ room
      cases below with
      | constituent member =>
          have child := Occurrence.element_mem_children member
          have smaller := Element.size_lt_of_mem_children child
          have mentioned := Element.mentions_subset_of_mem_children child
          rw [isPlain] at mentioned
          exact ⟨List.subset_nil.mp mentioned, by omega⟩
      | meaning shape _ =>
          rw [shape] at isPlain
          cases isPlain
  · exact ⟨ends, rfl, run_exact fits holds inside free returned⟩

end Exhaustive

/-! ## Checks -/

namespace Conformance

/-- How a check of an input against a rule ends if the rule decides how much of
the input it takes: all of it, a part of it from the beginning, or nothing. -/
inductive Adjudged
    (grammar : Option Grammar) (rule : Rule) (input : Octets) :
    Except Failure Unit → Prop
  | conforming :
      Derives grammar rule.element input →
      Adjudged grammar rule input (.ok ())
  | incomplete {front : Octets} :
      front <+: input →
      front.length < input.length →
      Derives grammar rule.element front →
      Adjudged grammar rule input
        (.error (.rejected (.incomplete rule.name
          (UInt64.ofNat front.length) (UInt64.ofNat input.length))))
  | mismatch :
      (∀ front, front <+: input → ¬ Derives grammar rule.element front) →
      Adjudged grammar rule input (.error (.rejected (.mismatch rule.name)))

section FixedWidth

variable {options : Options} {grammar : Option Grammar} {rule : Rule}
  {element : Element} {input : Octets} {offset : Offset} {place : Place}
  {width : Nat}

/-- Either strategy tells whether an element of fixed width matches, and where
it ends. -/
theorem matchElement_tells
    (fits : input.length < UInt64.size)
    (holds : place.Holds grammar element)
    (inside : offset.toNat ≤ input.length)
    (fixed : FixedWidth element width)
    (enough : element.size ≤ options.limit) :
    ∃ found,
      (matchElement options grammar element input offset place).outcome =
        .ok (found.map (· - offset)) ∧
      Tells (setting options grammar input) element offset found := by
  have addressable := addressable_setting options grammar fits
  have insideSetting := inside_setting options grammar inside
  cases strategy : options.strategy with
  | greedy =>
      obtain ⟨found, settles, tells⟩ :=
        Greedy.settles_of_fixedWidth addressable insideSetting fixed enough
      refine ⟨found, ?_, tells⟩
      rw [outcome_matchElement_greedy strategy, greedyEnd_of_settles settles]
      rfl
  | exhaustive =>
      obtain ⟨ends, returned, exact⟩ :=
        Exhaustive.run_exact_of_plain addressable holds insideSetting
          fixed.mentions_eq_nil enough
      refine ⟨ends.farthest?, ?_, ?_⟩
      · rw [outcome_matchElement_exhaustive strategy, outcome_allEnds,
          returned]
        rfl
      · cases isFarthest : ends.farthest? with
        | some stop =>
            exact (exact stop).mp (mem_of_farthest? isFarthest)
        | none =>
            intro stop spans
            have member := (exact stop).mpr spans
            rw [Ends.mem_def, List.getLast?_eq_none_iff.mp isFarthest] at member
            cases member

/-- From the beginning of the input, what the element spans are those words of
it which the input begins with. -/
theorem spans_from_beginning_iff
    {stop : Offset} (fits : input.length < UInt64.size) :
    Spans (setting options grammar input) element 0 stop ↔
      ∃ front, front <+: input ∧ UInt64.ofNat front.length = stop ∧
        Derives grammar element front := by
  constructor
  · intro spans
    obtain ⟨within, derives⟩ := consumes_of_spans spans
    rw [UInt64.sub_zero, UInt64.toNat_zero] at within derives
    refine ⟨input.take stop.toNat, List.take_prefix _ _, ?_, derives⟩
    rw [List.length_take, Nat.min_eq_left (by omega), UInt64.ofNat_toNat]
  · rintro ⟨front, begins, rfl, derives⟩
    have consumes : Consumes grammar element input (0 : Offset).toNat
        front.length := by
      refine ⟨by simpa using begins.length_le, ?_⟩
      rw [UInt64.toNat_zero, List.drop_zero,
        ← List.prefix_iff_eq_take.mp begins]
      exact derives
    obtain ⟨stop, spans, length⟩ :=
      exists_spans_of_consumes options fits consumes
    rw [UInt64.sub_zero] at length
    rw [← length, UInt64.ofNat_toNat]
    exact spans

/-- A check against a rule of fixed width does not end in a fault, and its
verdict is right. -/
theorem validate_adjudged
    (fits : input.length < UInt64.size)
    (holds : place.Holds grammar rule.element)
    (fixed : FixedWidth rule.element width)
    (enough : rule.element.size ≤ options.limit) :
    Adjudged grammar rule input
      (validate options grammar rule input place).outcome := by
  obtain ⟨found, matched, tells⟩ :=
    @matchElement_tells options _ _ _ 0 _ _ fits holds (Nat.zero_le _) fixed
      enough
  rw [outcome_validate_eq fits holds, matched]
  cases found with
  | none =>
      refine .mismatch ?_
      intro front begins derives
      exact tells _
        ((spans_from_beginning_iff fits).mpr ⟨front, begins, rfl, derives⟩)
  | some stop =>
      obtain ⟨front, begins, rfl, derives⟩ :=
        (spans_from_beginning_iff fits).mp tells
      rw [Option.map_some, UInt64.sub_zero]
      change Adjudged grammar rule input (judgeEnd rule.name _ (some _))
      rw [judgeEnd]
      split
      · next whole =>
          have sameLength := congrArg UInt64.toNat whole
          have bounded := begins.length_le
          rw [UInt64.toNat_ofNat_of_lt' (by omega),
            UInt64.toNat_ofNat_of_lt' fits] at sameLength
          exact .conforming (begins.eq_of_length sameLength ▸ derives)
      · next part =>
          refine .incomplete begins ?_ derives
          refine Nat.lt_of_le_of_ne begins.length_le ?_
          intro sameLength
          exact part (congrArg UInt64.ofNat sameLength)

/-- There is one way only in which the check may end. -/
theorem Adjudged.unique
    {verdict verdict' : Except Failure Unit}
    (fixed : FixedWidth rule.element width)
    (adjudged : Adjudged grammar rule input verdict)
    (adjudged' : Adjudged grammar rule input verdict') :
    verdict = verdict' := by
  cases adjudged with
  | conforming derives =>
      cases adjudged' with
      | conforming _ => rfl
      | incomplete _ shorter frontDerives =>
          rw [fixed.length_eq derives, fixed.length_eq frontDerives] at shorter
          exact absurd shorter (Nat.lt_irrefl width)
      | mismatch denies => exact absurd derives (denies _ List.prefix_rfl)
  | incomplete begins shorter frontDerives =>
      cases adjudged' with
      | conforming derives =>
          rw [fixed.length_eq derives, fixed.length_eq frontDerives] at shorter
          exact absurd shorter (Nat.lt_irrefl width)
      | incomplete _ _ otherDerives =>
          rw [fixed.length_eq frontDerives, fixed.length_eq otherDerives]
      | mismatch denies => exact absurd frontDerives (denies _ begins)
  | mismatch denies =>
      cases adjudged' with
      | conforming derives => exact absurd derives (denies _ List.prefix_rfl)
      | incomplete begins _ frontDerives =>
          exact absurd frontDerives (denies _ begins)
      | mismatch _ => rfl

end FixedWidth

end Conformance

end AbnfMatching
