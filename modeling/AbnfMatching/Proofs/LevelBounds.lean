import AbnfMatching.Language.Reachability
import AbnfMatching.Proofs.EndSets
import AbnfMatching.Proofs.Replies
import AbnfMatching.Proofs.Unfolding

/-!
# What one level of exhaustive matching finds

Suppose that every end set found below an occurrence lies between a lower bound
and the spans of the visited element. Then the end set found for the occurrence
lies between the unfolding of the lower bound and its own spans. No other visits
are asked for than those of occurrences right below, at offsets not before the
present one; a constituent visited at the present offset stands at the left
edge.
-/

namespace AbnfMatching

/-- The visits that evaluating an occurrence at an offset may ask for. -/
structure Asks
    (setting : Setting) (occurrence : Occurrence) (offset : Offset)
    (question : Occurrence × Offset) : Prop where
  below : Below setting.grammar occurrence question.1
  ordered : offset ≤ question.2
  inside : question.2.toNat ≤ setting.input.size
  atEdge : question.1 ∈ occurrence.children → question.2 = offset →
    ∀ name, LeftEdge setting.grammar question.1.element name →
      LeftEdge setting.grammar occurrence.element name

/-- A reply that reports spans only, and all that the lower bound demands. -/
def Bracketed (setting : Setting) (lower : Reach)
    (question : Occurrence × Offset) (ends : Ends) : Prop :=
  ends.Between (lower question.1 question.2)
    (spanReach setting question.1 question.2)

/-- Parts that derive the empty string leave the next part at the left edge. -/
theorem leftEdge_of_derives_nil
    {grammar : Option Grammar} {front back : List Element} {part : Element}
    {name : RuleName}
    (skipped : Derives grammar (.sequence front) [])
    (edge : LeftEdge grammar part name) :
    LeftEdge grammar (.sequence (front ++ part :: back)) name := by
  induction front with
  | nil =>
      exact .head edge
  | cons head tail inductionHypothesis =>
      obtain ⟨first, rest, empty, headDerivation, tailDerivation⟩ :=
        derives_sequence_cons_iff.mp skipped
      obtain ⟨rfl, rfl⟩ := List.append_eq_nil_iff.mp empty.symm
      exact .tail headDerivation (inductionHypothesis tailDerivation)

namespace Exhaustive

/-- The question for a visit, its reply being the value. -/
def askVisit (part : Occurrence) (start : Offset) :
    Inquiry (Occurrence × Offset) Ends Ends :=
  .ask (part, start) pure

/-- The ends found by any of several visits. -/
def askAll :
    List (Occurrence × Offset) → Inquiry (Occurrence × Offset) Ends Ends
  | [] => pure .none
  | head :: tail => do
      let first ← .ask head pure
      let others ← askAll tail
      pure (first.union others)

theorem fromAny_askVisit (part : Occurrence) (starts : List Offset) :
    fromAny (askVisit part) starts =
      askAll (starts.map fun start => (part, start)) := by
  induction starts with
  | nil => rfl
  | cons head tail inductionHypothesis =>
      simp only [fromAny, askVisit, askAll, List.map_cons,
        ← inductionHypothesis]

theorem anyOf_askVisit (occurrences : List Occurrence) (offset : Offset) :
    anyOf askVisit occurrences offset =
      askAll (occurrences.map fun part => (part, offset)) := by
  induction occurrences with
  | nil => rfl
  | cons head tail inductionHypothesis =>
      simp only [anyOf, askVisit, askAll, List.map_cons,
        ← inductionHypothesis]

section Parts

variable {setting : Setting} {lower : Reach}
  {allowed : Occurrence × Offset → Prop}

theorem meets_askAll
    (setting : Setting) (lower : Reach)
    (questions : List (Occurrence × Offset))
    (permitted : ∀ question ∈ questions, allowed question) :
    (askAll questions).Meets
      allowed (Bracketed setting lower)
      (Ends.Between
        (fun stop => ∃ question ∈ questions,
          lower question.1 question.2 stop)
        (fun stop => ∃ question ∈ questions,
          spanReach setting question.1 question.2 stop)) := by
  induction questions with
  | nil =>
      constructor <;> simp
  | cons head tail inductionHypothesis =>
      refine Inquiry.meets_bind <|
        Inquiry.meets_question (permitted head List.mem_cons_self) ?_
      intro first firstBracketed
      refine Inquiry.meets_bind <| Inquiry.meets_mono
        (inductionHypothesis fun question member =>
          permitted question (List.mem_cons_of_mem head member)) ?_
      intro others othersBetween
      constructor
      · intro stop demanded
        obtain ⟨question, member, reached⟩ := demanded
        rw [Ends.mem_union]
        rcases List.mem_cons.mp member with rfl | later
        · exact Or.inl (firstBracketed.complete stop reached)
        · exact Or.inr
            (othersBetween.complete stop ⟨question, later, reached⟩)
      · intro stop member
        rcases Ends.mem_union.mp member with inFirst | inOthers
        · exact ⟨head, List.mem_cons_self, firstBracketed.sound stop inFirst⟩
        · obtain ⟨question, later, reached⟩ :=
            othersBetween.sound stop inOthers
          exact ⟨question, List.mem_cons_of_mem head later, reached⟩

theorem meets_fromAny
    {part : Occurrence} {starts : List Offset}
    (permitted : ∀ start ∈ starts, allowed (part, start)) :
    (fromAny (askVisit part) starts).Meets
      allowed (Bracketed setting lower)
      (Ends.Between
        (fun stop => ∃ start ∈ starts, lower part start stop)
        (fun stop => ∃ start ∈ starts,
          spanReach setting part start stop)) := by
  rw [fromAny_askVisit]
  simpa using
    meets_askAll setting lower (starts.map fun start => (part, start))
      (by simpa using permitted)

theorem meets_inTurn
    {occurrences : List Occurrence} {current : Ends}
    (low high : Offset → Prop)
    (between : current.Between low high)
    (permitted : ∀ front part back,
      occurrences = front ++ part :: back →
      ∀ origin start, high origin →
        Passes (spanReach setting) front origin start →
        allowed (part, start)) :
    (inTurn askVisit occurrences current).Meets
      allowed (Bracketed setting lower)
      (Ends.Between
        (fun stop => ∃ start, low start ∧
          Passes lower occurrences start stop)
        (fun stop => ∃ start, high start ∧
          Passes (spanReach setting) occurrences start stop)) := by
  induction occurrences generalizing current low high with
  | nil =>
      refine between.mono ?_ ?_
      · intro stop demanded
        obtain ⟨start, isLow, rfl⟩ := demanded
        exact isLow
      · intro stop isHigh
        exact ⟨stop, isHigh, rfl⟩
  | cons head tail inductionHypothesis =>
      rw [inTurn]
      split
      · next empty =>
          constructor
          · intro stop demanded
            obtain ⟨start, isLow, _⟩ := demanded
            exact absurd (between.complete start isLow)
              (Ends.not_mem_of_isEmpty empty)
          · intro stop member
            exact absurd member (Ends.not_mem_none stop)
      · refine Inquiry.meets_bind <| Inquiry.meets_mono
          (meets_fromAny fun start member =>
            permitted [] head tail rfl start start
              (between.sound start member) rfl) ?_
        intro next nextBetween
        have nextBetween' : next.Between
            (fun stop => ∃ start, low start ∧ lower head start stop)
            (fun stop => ∃ start, high start ∧
              spanReach setting head start stop) := by
          refine nextBetween.mono ?_ ?_
          · intro stop demanded
            obtain ⟨start, isLow, reached⟩ := demanded
            exact ⟨start, between.complete start isLow, reached⟩
          · intro stop found
            obtain ⟨start, member, reached⟩ := found
            exact ⟨start, between.sound start member, reached⟩
        refine Inquiry.meets_mono (inductionHypothesis _ _ nextBetween' ?_) ?_
        · intro front part back split middle start isHighNext frontPass
          subst split
          obtain ⟨origin, isHigh, headPass⟩ := isHighNext
          exact permitted (head :: front) part back rfl origin start isHigh
            ⟨middle, headPass, frontPass⟩
        · intro ends endsBetween
          refine endsBetween.mono ?_ ?_
          · intro stop demanded
            obtain ⟨start, isLow, middle, headPass, tailPass⟩ := demanded
            exact ⟨middle, ⟨start, isLow, headPass⟩, tailPass⟩
          · intro stop reached
            obtain ⟨middle, ⟨start, isHigh, headPass⟩, tailPass⟩ := reached
            exact ⟨start, isHigh, middle, headPass, tailPass⟩

theorem meets_anyOf
    {occurrences : List Occurrence} {offset : Offset}
    (permitted : ∀ part ∈ occurrences, allowed (part, offset)) :
    (anyOf askVisit occurrences offset).Meets
      allowed (Bracketed setting lower)
      (Ends.Between
        (fun stop => ∃ part ∈ occurrences, lower part offset stop)
        (fun stop => ∃ part ∈ occurrences,
          spanReach setting part offset stop)) := by
  rw [anyOf_askVisit]
  simpa using
    meets_askAll setting lower (occurrences.map fun part => (part, offset))
      (by simpa using permitted)

end Parts

/-! ## Repetition -/

/-- Rounds of a repetition are passes of copies of its operand. -/
theorem advance_eq_inTurn {m : Type → Type} [Monad m]
    (item : Occurrence → Offset → m Ends) (part : Occurrence)
    (rounds : Nat) (frontier : Ends) :
    advance (item part) rounds frontier =
      inTurn item (List.replicate rounds part) frontier := by
  induction rounds generalizing frontier with
  | zero =>
      rfl
  | succ rounds inductionHypothesis =>
      simp only [advance, inTurn, List.replicate_succ, inductionHypothesis]

/-- The state of a repetition after `done` rounds, at least as many as it has
to make. The frontier holds what the last round reached; from every other
accepted end the next round leads to accepted ends again. -/
structure Extending
    (setting : Setting) (lower : Reach) (bounds : Bounds)
    (part : Occurrence) (origin : Offset) (done : Nat)
    (accepted frontier : Ends) : Prop where
  included : ∀ start ∈ frontier, start ∈ accepted
  closed : ∀ start ∈ accepted, start ∈ frontier ∨
    ∀ stop, lower part start stop → stop ∈ accepted
  frontierSound : ∀ start ∈ frontier,
    Passes (spanReach setting) (List.replicate done part) origin start
  acceptedSound : ∀ stop ∈ accepted, ∃ count, bounds.Allows count ∧
    Passes (spanReach setting) (List.replicate count part) origin stop

section Extending

variable {setting : Setting} {lower : Reach} {bounds : Bounds}
  {part : Occurrence} {origin : Offset} {done : Nat}
  {accepted frontier next : Ends}

/-- What the next round reaches is accepted as well and becomes the
frontier. -/
theorem Extending.step
    (state : Extending setting lower bounds part origin done
      accepted frontier)
    (allowed : bounds.Allows (done + 1))
    (between : next.Between
      (fun stop => ∃ start ∈ frontier, lower part start stop)
      (fun stop => ∃ start ∈ frontier,
        spanReach setting part start stop)) :
    Extending setting lower bounds part origin (done + 1)
      (accepted.union next) next := by
  have nextSound : ∀ stop ∈ next,
      Passes (spanReach setting) (List.replicate (done + 1) part)
        origin stop := by
    intro stop member
    obtain ⟨start, startMember, reached⟩ := between.sound stop member
    exact passes_replicate_add_iff.mpr
      ⟨start, state.frontierSound start startMember,
        passes_singleton_iff.mpr reached⟩
  refine ⟨?_, ?_, nextSound, ?_⟩
  · intro start member
    exact Ends.mem_union.mpr (Or.inr member)
  · intro start member
    rcases Ends.mem_union.mp member with old | new
    · right
      intro stop reached
      rw [Ends.mem_union]
      rcases state.closed start old with onFrontier | leadsBack
      · exact Or.inr (between.complete stop ⟨start, onFrontier, reached⟩)
      · exact Or.inl (leadsBack stop reached)
    · exact Or.inl new
  · intro stop member
    rcases Ends.mem_union.mp member with old | new
    · exact state.acceptedSound stop old
    · exact ⟨done + 1, allowed, nextSound stop new⟩

/-- A round that reaches nothing new closes the accepted ends. -/
theorem Extending.closed_of_settled
    (state : Extending setting lower bounds part origin done
      accepted frontier)
    (between : next.Between
      (fun stop => ∃ start ∈ frontier, lower part start stop)
      (fun stop => ∃ start ∈ frontier,
        spanReach setting part start stop))
    (settled : accepted.union next = accepted)
    {start : Offset} (member : start ∈ accepted)
    {stop : Offset} (reached : lower part start stop) :
    stop ∈ accepted := by
  rcases state.closed start member with onFrontier | leadsBack
  · rw [← settled, Ends.mem_union]
    exact Or.inr (between.complete stop ⟨start, onFrontier, reached⟩)
  · exact leadsBack stop reached

/-- The number of rounds limits what is found only if it is limited itself: a
round that reaches nothing new is not the last one for want of further ones. -/
theorem meets_extend
    {allowed : Occurrence × Offset → Prop} {left : Option Nat}
    (state : Extending setting lower bounds part origin done
      accepted frontier)
    (atLeast : bounds.minimum ≤ done)
    (atMost : ∀ limit ∈ bounds.maximum, done ≤ limit)
    (roundsLeft : left = bounds.remaining done)
    (permitted : ∀ count start,
      (∀ limit ∈ bounds.maximum, count < limit) →
      Passes (spanReach setting) (List.replicate count part) origin start →
      allowed (part, start)) :
    (extend (askVisit part) left accepted frontier).Meets
      allowed (Bracketed setting lower)
      (Ends.Between
        (fun stop => stop ∈ accepted ∨ ∃ count,
          (∀ most ∈ left, count ≤ most) ∧
          ∃ start ∈ frontier,
            Passes lower (List.replicate count part) start stop)
        (fun stop => ∃ count, bounds.Allows count ∧
          Passes (spanReach setting) (List.replicate count part)
            origin stop)) := by
  induction left, accepted, frontier using extend.induct
    generalizing done with
  | case1 accepted frontier =>
      rw [extend_filled]
      refine ⟨?_, state.acceptedSound⟩
      intro stop demanded
      rcases demanded with
        member | ⟨count, enough, start, startMember, passes⟩
      · exact member
      · have none : count = 0 := Nat.le_zero.mp (enough 0 rfl)
        subst none
        rw [passes]
        exact state.included start startMember
  | case2 left accepted frontier unfilled inductionHypothesis =>
      have another : ∀ limit ∈ bounds.maximum, done < limit :=
        Bounds.lt_of_remaining atMost (roundsLeft ▸ unfilled)
      have oneMore : bounds.Allows (done + 1) :=
        ⟨Nat.le_succ_of_le atLeast, another⟩
      rw [extend_round unfilled]
      refine Inquiry.meets_bind <| Inquiry.meets_mono
        (meets_fromAny fun start member =>
          permitted done start another
            (state.frontierSound start member)) ?_
      intro next between
      -- A round that adds nothing shows the accepted ends to be closed under
      -- the lower bound, whatever number of rounds is left.
      by_cases settled : accepted.union next = accepted
      · simp only [settled, if_true]
        refine ⟨?_, state.acceptedSound⟩
        intro stop demanded
        rcases demanded with
          member | ⟨count, _, start, startMember, passes⟩
        · exact member
        · exact passes.of_closed (· ∈ accepted)
            (state.included start startMember)
            fun start member stop reached =>
              state.closed_of_settled between settled member reached
      · simp only [settled, if_false]
        have fewerLeft : left.map (· - 1) = bounds.remaining (done + 1) := by
          rw [roundsLeft, Bounds.remaining_succ]
        refine Inquiry.meets_mono
          (inductionHypothesis next settled (state.step oneMore between)
            (Nat.le_succ_of_le atLeast) another fewerLeft) ?_
        intro ends endsBetween
        refine endsBetween.mono ?_ (fun stop holds => holds)
        intro stop demanded
        rcases demanded with
          member | ⟨count, enough, start, startMember, passes⟩
        · exact Or.inl (Ends.mem_union.mpr (Or.inl member))
        · cases count with
          | zero =>
              rw [passes]
              exact Or.inl
                (Ends.mem_union.mpr (Or.inl (state.included start startMember)))
          | succ count =>
              obtain ⟨middle, headPass, tailPass⟩ := passes
              refine Or.inr ⟨count, ?_, middle, ?_, tailPass⟩
              · intro fewer isFewer
                obtain ⟨most, isMost, rfl⟩ := Option.map_eq_some_iff.mp isFewer
                exact Nat.le_sub_one_of_lt (enough most isMost)
              · exact between.complete middle ⟨start, startMember, headPass⟩

end Extending

/-! ## All kinds of elements -/

section Inquiry

variable {setting : Setting} {lower : Reach} {occurrence : Occurrence}
  {offset : Offset}

/-- A part of a sequence may be visited wherever the parts before it end. -/
theorem asks_part
    (inside : offset.toNat ≤ setting.input.size)
    {parts : List Element} (shape : occurrence.element = .sequence parts)
    {front back : List Occurrence} {part : Occurrence} {start : Offset}
    (children : occurrence.children = front ++ part :: back)
    (passes : Passes (spanReach setting) front offset start) :
    Asks setting occurrence offset (part, start) := by
  obtain ⟨ordered, startInside⟩ := passes.ordered_inside inside
  refine ⟨.constituent (by simp [children]), ordered, startInside, ?_⟩
  intro _ atEdge name edge
  obtain rfl : start = offset := atEdge
  have skipped := (passes_spanReach_iff inside).mp passes
  have parts_eq :
      parts = front.map Occurrence.element ++
        part.element :: back.map Occurrence.element := by
    have elements := occurrence.map_element_children
    rw [children, shape, Element.children] at elements
    simpa using elements.symm
  rw [shape, parts_eq]
  exact leftEdge_of_derives_nil ((spans_self_iff inside).mp skipped) edge

/-- The operand of a repetition may be visited wherever earlier rounds end, as
long as another round is allowed. -/
theorem asks_round
    (inside : offset.toNat ≤ setting.input.size)
    {bounds : Bounds} {body : Element}
    (shape : occurrence.element = .repetition bounds body)
    {count : Nat} {start : Offset}
    (oneMore : ∀ limit ∈ bounds.maximum, count < limit)
    (passes : Passes (spanReach setting)
      (List.replicate count ⟨occurrence.tree, occurrence.index + 1, body⟩)
      offset start) :
    Asks setting occurrence offset
      (⟨occurrence.tree, occurrence.index + 1, body⟩, start) := by
  have operand : occurrence.element.children = [body] := by
    rw [shape]
    rfl
  have sole := Occurrence.children_of_operand occurrence operand
  obtain ⟨ordered, startInside⟩ := passes.ordered_inside inside
  refine ⟨.constituent (by simp [sole]), ordered, startInside, ?_⟩
  intro _ _ name edge
  rw [shape]
  refine .repetition ?_ edge
  intro noRound
  exact absurd (oneMore 0 noRound) (Nat.not_lt_zero count)

theorem meets_repetition
    (inside : offset.toNat ≤ setting.input.size)
    {bounds : Bounds} {body : Element}
    (shape : occurrence.element = .repetition bounds body) :
    let part : Occurrence := ⟨occurrence.tree, occurrence.index + 1, body⟩
    (do
      let reached ← advance (askVisit part) bounds.minimum (.single offset)
      extend (askVisit part) (bounds.remaining bounds.minimum)
        reached reached : Inquiry _ _ _).Meets
      (Asks setting occurrence offset) (Bracketed setting lower)
      (Ends.Between
        (fun stop => ∃ count, bounds.Allows count ∧
          Passes lower (List.replicate count part) offset stop)
        (fun stop => ∃ count, bounds.Allows count ∧
          Passes (spanReach setting) (List.replicate count part)
            offset stop)) := by
  intro part
  have minimumAllowed : bounds.Allows bounds.minimum :=
    ⟨Nat.le_refl _, bounds.minimum_le⟩
  rw [advance_eq_inTurn]
  refine Inquiry.meets_bind <| Inquiry.meets_mono
    (meets_inTurn (· = offset) (· = offset) ?_ ?_) ?_
  · exact ⟨by simp, by simp⟩
  · intro front copy back split origin start same passes
    subst same
    obtain ⟨lengths, frontCopies, copies⟩ :=
      List.replicate_eq_append_iff.mp split
    have samePart : copy = part := by
      rw [List.eq_replicate_iff] at copies
      exact copies.2 copy List.mem_cons_self
    rw [samePart]
    rw [frontCopies] at passes
    refine asks_round inside shape ?_ passes
    intro limit isLimit
    have := bounds.minimum_le limit isLimit
    simp only [List.length_cons] at lengths
    omega
  · intro reached between
    have start : Extending setting lower bounds part offset bounds.minimum
        reached reached := by
      refine ⟨fun _ member => member, fun _ member => Or.inl member, ?_, ?_⟩
      · intro stop member
        obtain ⟨_, rfl, passes⟩ := between.sound stop member
        exact passes
      · intro stop member
        obtain ⟨_, rfl, passes⟩ := between.sound stop member
        exact ⟨bounds.minimum, minimumAllowed, passes⟩
    refine Inquiry.meets_mono
      (meets_extend start (Nat.le_refl _) bounds.minimum_le rfl ?_) ?_
    · intro count start oneMore passes
      exact asks_round inside shape oneMore passes
    · intro ends endsBetween
      refine endsBetween.mono ?_ (fun stop holds => holds)
      intro stop demanded
      obtain ⟨count, ⟨atLeast, atMost⟩, passes⟩ := demanded
      obtain ⟨further, rfl⟩ := Nat.exists_eq_add_of_le atLeast
      obtain ⟨middle, first, second⟩ := passes_replicate_add_iff.mp passes
      have reachedMiddle := between.complete middle ⟨offset, rfl, first⟩
      refine Or.inr ⟨further, ?_, middle, reachedMiddle, second⟩
      intro most isMost
      obtain ⟨limit, limited, rfl⟩ := Option.map_eq_some_iff.mp isMost
      have allowed := atMost limit limited
      omega

/-- What evaluating an occurrence finds lies between the unfolding of the lower
bound and the spans of the element. -/
theorem meets_inquiry
    (lower : Reach) (fits : setting.Addressable)
    (inside : offset.toNat ≤ setting.input.size) :
    (inquiry setting occurrence offset).Meets
      (Asks setting occurrence offset) (Bracketed setting lower)
      (Ends.Between (Unfolds setting lower occurrence offset)
        (spanReach setting occurrence offset)) := by
  suffices unfolded :
      (inquiry setting occurrence offset).Meets
        (Asks setting occurrence offset) (Bracketed setting lower)
        (Ends.Between (Unfolds setting lower occurrence offset)
          (Unfolds setting (spanReach setting) occurrence offset)) by
    refine Inquiry.meets_mono unfolded ?_
    intro ends between
    exact between.mono (fun stop holds => holds)
      fun stop => (unfolds_spanReach_iff fits inside).mp
  obtain ⟨tree, index, element⟩ := occurrence
  unfold inquiry level Unfolds
  cases element with
  | terminal value =>
      refine Inquiry.meets_bind <| Inquiry.meets_lift ?_
      intro found result
      cases found with
      | none =>
          refine ⟨?_, ?_⟩ <;> simp [result]
      | some stop =>
          refine ⟨?_, ?_⟩ <;> simp [result, eq_comm]
  | reference name =>
      refine Inquiry.meets_bind <| Inquiry.meets_lift ?_
      intro rule resolved
      have meaning := ruleOf_of_resolve resolved
      have asked :
          Asks setting ⟨tree, index, .reference name⟩ offset
            (.root (.rule rule.key) rule.element, offset) :=
        ⟨.meaning rfl meaning, UInt64.le_refl offset, inside,
          fun child => absurd child List.not_mem_nil⟩
      refine Inquiry.meets_question asked ?_
      intro ends bracketed
      refine bracketed.mono ?_ ?_
      · intro stop demanded
        obtain ⟨other, otherMeaning, reached⟩ := demanded
        obtain rfl : other = rule :=
          Option.some.inj (otherMeaning.symm.trans meaning)
        exact reached
      · intro stop reached
        exact ⟨rule, meaning, reached⟩
  | sequence parts =>
      refine Inquiry.meets_mono
        (meets_inTurn (· = offset) (· = offset) ?_ ?_) ?_
      · exact ⟨by simp, by simp⟩
      · intro front part back children origin start same passes
        subst same
        exact asks_part inside rfl children passes
      · intro ends between
        simpa using between
  | alternation branches =>
      refine meets_anyOf ?_
      intro part member
      refine ⟨.constituent member, UInt64.le_refl offset, inside, ?_⟩
      intro _ _ name edge
      exact .branch (Occurrence.element_mem_children member) edge
  | option body =>
      have sole :=
        Occurrence.children_of_operand ⟨tree, index, .option body⟩ rfl
      have asked :
          Asks setting ⟨tree, index, .option body⟩ offset
            (⟨tree, index + 1, body⟩, offset) :=
        ⟨.constituent (by simp [sole]), UInt64.le_refl offset, inside,
          fun _ _ name edge => .option edge⟩
      refine Inquiry.meets_bind <| Inquiry.meets_question asked ?_
      intro found bracketed
      simp only [sole, List.mem_singleton, exists_eq_left]
      constructor
      · intro stop demanded
        rcases demanded with rfl | reached
        · simp
        · exact Ends.mem_union.mpr (Or.inl (bracketed.complete stop reached))
      · intro stop member
        rcases Ends.mem_union.mp member with inBody | skipped
        · exact Or.inr (bracketed.sound stop inBody)
        · exact Or.inl (Ends.mem_single.mp skipped)
  | repetition bounds body =>
      have sole := Occurrence.children_of_operand
        ⟨tree, index, .repetition bounds body⟩ rfl
      simp only [sole, List.mem_singleton, exists_eq_left]
      exact meets_repetition inside rfl

end Inquiry

end Exhaustive

end AbnfMatching
