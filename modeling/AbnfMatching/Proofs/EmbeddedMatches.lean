import AbnfMatching.Proofs.Embeddings

/-!
# Exhaustive matching in a longer input

Visits in a longer input are compared with the visits in the shorter one that
is embedded in it. Each visit of the shorter input has its counterpart at the
displaced offset, which shows the same ends. All other visits are made beyond
the shorter input and leave the entries for the counterparts alone.

A round of a repetition that reaches nothing new in the shorter input may reach
new ends beyond it. The rounds that follow put the questions of earlier rounds
again; since completed visits are filed, they are answered as before.
-/

namespace AbnfMatching

theorem Ends.isEmpty_iff {ends : Ends} :
    ends.isEmpty = true ↔ ends = .none := by
  obtain ⟨offsets, ascending⟩ := ends
  simp [Ends.isEmpty, Ends.none]

def Visit.displaced (lead : Nat) (visit : Visit) : Visit :=
  { visit with offset := displace lead visit.offset }

theorem Visit.displaced_injective {lead : Nat} :
    Function.Injective (Visit.displaced lead) := by
  rintro ⟨offset, index, tree⟩ ⟨offset', index', tree'⟩ same
  simp only [displaced, Visit.mk.injEq] at same
  obtain ⟨offsets, rfl, rfl⟩ := same
  rw [displace_injective offsets]

theorem Occurrence.visitAt_displace
    {occurrence : Occurrence} {lead : Nat} {offset : Offset} :
    occurrence.visitAt (displace lead offset) =
      (occurrence.visitAt offset).displaced lead :=
  rfl

/-- Replies that are known, with the questions to which they were given. -/
abbrev Replies :=
  List ((Occurrence × Offset) × Ends)

open Exhaustive

namespace Embedding

variable {embedding : Embedding}

/-! ## Inquiries -/

/-- A question of the shorter input in the longer one. -/
def displaced (embedding : Embedding) (question : Occurrence × Offset) :
    Occurrence × Offset :=
  (question.1, displace embedding.lead question.2)

/-- A question about an element within the bounds at an offset of the shorter
input. -/
structure Concerns
    (embedding : Embedding) (question : Occurrence × Offset) : Prop where
  within : embedding.within question.1.element
  inside : question.2.toNat ≤ embedding.inner.input.size

/-- The manner in which inquiries about the longer input accompany those about
the shorter one: questions are displaced, and questions beyond the shorter input
are put aside. The latter may end in a fault. -/
def manner (embedding : Embedding) :
    Manner (Occurrence × Offset) (Occurrence × Offset) Ends Ends where
  questions question question' :=
    embedding.Concerns question ∧ question' = embedding.displaced question
  replies := embedding.Shows
  aside question' := embedding.Beyond question'.2
  remark := Ends.LieIn embedding.Beyond
  lenient := ¬ embedding.AtEnd

/-- The outcome of putting several questions, beginning with some known replies:
a reply to each of them is known in the end and has been taken in. -/
structure Gathers
    (embedding : Embedding) (known : Replies)
    (questions : List (Occurrence × Offset)) (later : Replies)
    (found found' : Ends) : Prop where
  remembered : known ⊆ later
  shows : embedding.Shows found found'
  replied : ∀ question ∈ questions, ∃ reply, (question, reply) ∈ later ∧
    ∀ stop ∈ reply, stop ∈ found

theorem accompanies_beyond
    {known : Replies} {inquiry' : Inquiry (Occurrence × Offset) Ends Ends}
    {agree : Replies → Ends → Ends → Prop} {goal : Ends → Prop}
    (meets : inquiry'.Meets (fun question => embedding.Beyond question.2)
      (fun _ => Ends.LieIn embedding.Beyond) goal)
    (silent : inquiry'.Silent)
    (agreed : ∀ ends', goal ends' → agree known .none ends') :
    Inquiry.Accompanies embedding.manner agree known (.done .none)
      inquiry' :=
  Inquiry.accompanies_done meets silent
    (fun _ beyond => Or.inl ⟨beyond, fun _ remark => remark⟩) agreed

theorem accompanies_askAll
    {known : Replies} {questions others : List (Occurrence × Offset)}
    (concerns : ∀ question ∈ questions, embedding.Concerns question)
    (beyond : ∀ question ∈ others, embedding.Beyond question.2) :
    Inquiry.Accompanies embedding.manner (embedding.Gathers known questions)
      known (askAll questions)
      (askAll (questions.map embedding.displaced ++ others)) := by
  induction questions generalizing known with
  | nil =>
      refine accompanies_beyond (meets_askAll_lieIn beyond)
        (silent_askAll others) ?_
      intro ends' lies
      exact ⟨fun _ member => member, shows_none_iff.mpr lies,
        fun _ member => nomatch member⟩
  | cons head tail inductionHypothesis =>
      refine Inquiry.accompanies_bind
        (Inquiry.accompanies_question
          (fun later reply reply' =>
            later = (head, reply) :: known ∧ embedding.Shows reply reply')
          ⟨concerns head List.mem_cons_self, rfl⟩
          fun reply reply' shows => ⟨rfl, shows⟩) ?_
      rintro _ first first' ⟨rfl, firstShows⟩
      refine Inquiry.accompanies_bind
        (inductionHypothesis fun question member =>
          concerns question (List.mem_cons_of_mem head member)) ?_
      intro later tailFound tailFound' gathers
      refine .done ⟨?_, firstShows.union gathers.shows, ?_⟩
      · intro pair member
        exact gathers.remembered (List.mem_cons_of_mem _ member)
      · intro question member
        rcases List.mem_cons.mp member with rfl | inTail
        · refine ⟨first, gathers.remembered List.mem_cons_self, ?_⟩
          intro stop stopMember
          exact Ends.mem_union.mpr (Or.inl stopMember)
        · obtain ⟨reply, isKnown, taken⟩ := gathers.replied question inTail
          refine ⟨reply, isKnown, ?_⟩
          intro stop stopMember
          exact Ends.mem_union.mpr (Or.inr (taken stop stopMember))

theorem accompanies_fromAny
    {known : Replies} {part : Occurrence} {starts starts' : Ends}
    (within : embedding.within part.element)
    (shows : embedding.Shows starts starts') :
    Inquiry.Accompanies embedding.manner
      (embedding.Gathers known (starts.offsets.map fun start => (part, start)))
      known (fromAny (askVisit part) starts.offsets)
      (fromAny (askVisit part) starts'.offsets) := by
  obtain ⟨later, offsets, beyond⟩ := shows.exists_later
  have questions :
      starts'.offsets.map (fun start => (part, start)) =
        (starts.offsets.map fun start => (part, start)).map
            embedding.displaced ++
          later.map fun start => (part, start) := by
    rw [offsets, List.map_append, List.map_map, List.map_map]
    rfl
  rw [fromAny_askVisit, fromAny_askVisit, questions]
  refine accompanies_askAll ?_ (by simpa using beyond)
  intro question member
  obtain ⟨start, startMember, rfl⟩ := List.mem_map.mp member
  exact ⟨within, shows.inside start startMember⟩

theorem accompanies_inTurn
    {known : Replies} {occurrences : List Occurrence} {current current' : Ends}
    (within : ∀ part ∈ occurrences, embedding.within part.element)
    (shows : embedding.Shows current current') :
    Inquiry.Accompanies embedding.manner (fun _ => embedding.Shows) known
      (inTurn askVisit occurrences current)
      (inTurn askVisit occurrences current') := by
  induction occurrences generalizing known current current' with
  | nil =>
      exact .done shows
  | cons head tail inductionHypothesis =>
      by_cases nothing : current = .none
      · -- What is left to match is matched beyond the shorter input.
        subst nothing
        exact accompanies_beyond
          (meets_inTurn_lieIn (shows_none_iff.mp shows) fun _ _ _ => id)
          (silent_inTurn current') fun ends' => shows_none_iff.mpr
      · have nonempty : ¬ current.isEmpty = true :=
          mt Ends.isEmpty_iff.mp nothing
        have nonempty' : ¬ current'.isEmpty = true := by
          intro empty
          rw [Ends.isEmpty_iff] at empty
          subst empty
          exact nothing (shows.unique (shows_none_iff.mpr Ends.lieIn_none))
        rw [inTurn, inTurn, if_neg nonempty, if_neg nonempty']
        refine Inquiry.accompanies_bind
          (accompanies_fromAny (within head List.mem_cons_self) shows) ?_
        intro later next next' gathers
        exact inductionHypothesis
          (fun part member => within part (List.mem_cons_of_mem head member))
          gathers.shows

theorem accompanies_anyOf
    {known : Replies} {occurrences : List Occurrence} {offset : Offset}
    (within : ∀ part ∈ occurrences, embedding.within part.element)
    (inside : offset.toNat ≤ embedding.inner.input.size) :
    Inquiry.Accompanies embedding.manner (fun _ => embedding.Shows) known
      (anyOf askVisit occurrences offset)
      (anyOf askVisit occurrences (displace embedding.lead offset)) := by
  have questions :
      occurrences.map (fun part => (part, displace embedding.lead offset)) =
        (occurrences.map fun part => (part, offset)).map
          embedding.displaced ++ [] := by
    rw [List.append_nil, List.map_map]
    rfl
  rw [anyOf_askVisit, anyOf_askVisit, questions]
  refine Inquiry.Accompanies.mono
    (accompanies_askAll ?_ fun _ member => nomatch member)
    fun _ _ _ gathers => gathers.shows
  intro question member
  obtain ⟨part, partMember, rfl⟩ := List.mem_map.mp member
  exact ⟨within part partMember, inside⟩

/-! ## Repetition -/

/-- From every accepted end that is not on the frontier, the next round is known
to lead to accepted ends. -/
structure Explores
    (known : Replies) (part : Occurrence) (accepted frontier : Ends) :
    Prop where
  included : ∀ start ∈ frontier, start ∈ accepted
  explored : ∀ start ∈ accepted, start ∈ frontier ∨
    ∃ reply, ((part, start), reply) ∈ known ∧ ∀ stop ∈ reply, stop ∈ accepted

section Repetition

variable {known later : Replies} {part : Occurrence}
  {accepted accepted' frontier frontier' next next' : Ends}

/-- After a round, the replies to everything accepted before it are known. -/
theorem Explores.replied
    (explores : Explores known part accepted frontier)
    (gathers : embedding.Gathers known
      (frontier.offsets.map fun start => (part, start)) later next next') :
    ∀ start ∈ accepted, ∃ reply, ((part, start), reply) ∈ later ∧
      ∀ stop ∈ reply, stop ∈ accepted.union next := by
  intro start member
  rcases explores.explored start member with
    onFrontier | ⟨reply, isKnown, leadsBack⟩
  · obtain ⟨reply, isKnown, taken⟩ := gathers.replied (part, start)
      (List.mem_map_of_mem onFrontier)
    exact ⟨reply, isKnown, fun stop stopMember =>
      Ends.mem_union.mpr (Or.inr (taken stop stopMember))⟩
  · exact ⟨reply, gathers.remembered isKnown, fun stop stopMember =>
      Ends.mem_union.mpr (Or.inl (leadsBack stop stopMember))⟩

theorem Explores.step
    (explores : Explores known part accepted frontier)
    (gathers : embedding.Gathers known
      (frontier.offsets.map fun start => (part, start)) later next next') :
    Explores later part (accepted.union next) next := by
  constructor
  · intro start member
    exact Ends.mem_union.mpr (Or.inr member)
  · intro start member
    rcases Ends.mem_union.mp member with old | new
    · exact Or.inr (explores.replied gathers start old)
    · exact Or.inl new

/-- Once the shorter input has nothing new to offer, further rounds reach ends
beyond it only. -/
theorem accompanies_settled
    {left : Option Nat} (within : embedding.within part.element)
    (shows : embedding.Shows accepted accepted')
    (included : ∀ start ∈ frontier', start ∈ accepted')
    (replied : ∀ start ∈ accepted, ∃ reply,
      ((part, start), reply) ∈ known ∧ ∀ stop ∈ reply, stop ∈ accepted) :
    Inquiry.Accompanies embedding.manner (fun _ => embedding.Shows) known
      (.done accepted)
      (extend (askVisit part) left accepted' frontier') := by
  let region (stop : Offset) : Prop :=
    (∃ origin ∈ accepted, displace embedding.lead origin = stop) ∨
      embedding.Beyond stop
  have acceptedLies : accepted'.LieIn region := shows.covered
  have frontierLies : frontier'.LieIn region :=
    fun stop member => acceptedLies stop (included stop member)
  have meets :
      (extend (askVisit part) left accepted' frontier').Meets
        (fun question => question.1 = part ∧ region question.2)
        (fun _ => Ends.LieIn region)
        (fun ends => ends.LieIn region ∧ ∀ stop ∈ accepted', stop ∈ ends) :=
    meets_extend_lieIn acceptedLies frontierLies
      fun start inRegion => ⟨rfl, inRegion⟩
  refine Inquiry.accompanies_done meets
    (silent_extend left accepted' frontier') ?_ ?_
  · rintro ⟨_, start⟩ ⟨rfl, inRegion⟩
    rcases inRegion with ⟨origin, member, rfl⟩ | beyond
    · right
      obtain ⟨reply, isKnown, leadsBack⟩ := replied origin member
      refine ⟨(_, origin), reply, isKnown,
        ⟨⟨within, shows.inside origin member⟩, rfl⟩, ?_⟩
      intro reply' replyShows stop stopMember
      refine (replyShows.covered stop stopMember).imp_left ?_
      rintro ⟨target, targetMember, displaced⟩
      exact ⟨target, leadsBack target targetMember, displaced⟩
    · left
      exact ⟨beyond, fun reply' lies stop stopMember =>
        Or.inr (lies stop stopMember)⟩
  · rintro ends' ⟨lies, extended⟩
    exact ⟨shows.inside, fun stop member =>
      extended _ (shows.kept stop member), lies⟩

theorem accompanies_extend
    {left : Option Nat} (within : embedding.within part.element)
    (shows : embedding.Shows accepted accepted')
    (frontierShows : embedding.Shows frontier frontier')
    (explores : Explores known part accepted frontier) :
    Inquiry.Accompanies embedding.manner (fun _ => embedding.Shows) known
      (extend (askVisit part) left accepted frontier)
      (extend (askVisit part) left accepted' frontier') := by
  induction left, accepted, frontier using extend.induct
    generalizing known accepted' frontier' with
  | case1 accepted frontier =>
      rw [extend_filled, extend_filled]
      exact .done shows
  | case2 left accepted frontier unfilled inductionHypothesis =>
      rw [extend_round unfilled, extend_round unfilled]
      refine Inquiry.accompanies_bind
        (accompanies_fromAny within frontierShows) ?_
      intro later next next' gathers
      have grownShows := shows.union gathers.shows
      by_cases settled : accepted.union next = accepted
      · rw [if_pos settled]
        rw [settled] at grownShows
        by_cases settled' : accepted'.union next' = accepted'
        · rw [if_pos settled']
          exact .done shows
        · rw [if_neg settled']
          have replied := explores.replied gathers
          rw [settled] at replied
          exact accompanies_settled within grownShows
            (fun start member => Ends.mem_union.mpr (Or.inr member)) replied
      · have unsettled' : ¬ accepted'.union next' = accepted' := by
          intro settled'
          rw [settled'] at grownShows
          exact settled (grownShows.unique shows)
        rw [if_neg settled, if_neg unsettled']
        exact inductionHypothesis next settled grownShows gathers.shows
          (explores.step gathers)

theorem accompanies_repetition
    {bounds : Bounds} {offset : Offset}
    (within : embedding.within part.element)
    (inside : offset.toNat ≤ embedding.inner.input.size) :
    Inquiry.Accompanies embedding.manner (fun _ => embedding.Shows) known
      (do
        let reached ← advance (askVisit part) bounds.minimum (.single offset)
        extend (askVisit part) (bounds.remaining bounds.minimum)
          reached reached)
      (do
        let reached ← advance (askVisit part) bounds.minimum
          (.single (displace embedding.lead offset))
        extend (askVisit part) (bounds.remaining bounds.minimum)
          reached reached) := by
  rw [advance_eq_inTurn, advance_eq_inTurn]
  refine Inquiry.accompanies_bind
    (accompanies_inTurn ?_ (shows_single inside)) ?_
  · intro copy member
    rw [List.eq_of_mem_replicate member]
    exact within
  · intro later reached reached' shows
    exact accompanies_extend within shows shows
      ⟨fun _ member => member, fun _ member => Or.inl member⟩

end Repetition

/-- An occurrence at a displaced offset is evaluated by an accompanying
inquiry. -/
theorem accompanies_inquiry
    {known : Replies} {occurrence : Occurrence} {offset : Offset}
    (within : embedding.within occurrence.element)
    (inside : offset.toNat ≤ embedding.inner.input.size) :
    Inquiry.Accompanies embedding.manner (fun _ => embedding.Shows) known
      (inquiry embedding.inner occurrence offset)
      (inquiry embedding.outer occurrence
        (displace embedding.lead offset)) := by
  have childWithin : ∀ part ∈ occurrence.children,
      embedding.within part.element :=
    fun part member => embedding.parts occurrence.element part.element within
      (Occurrence.element_mem_children member)
  obtain ⟨tree, index, element⟩ := occurrence
  unfold inquiry level
  cases element with
  | terminal value =>
      obtain ⟨found, found', innerEnd, outerEnd, ends⟩ :=
        terminalEnd_displaced within inside
      dsimp only
      rw [innerEnd, outerEnd]
      rcases ends with ⟨rfl, foundInside⟩ | ⟨rfl, stop, rfl, beyond⟩
      · cases found with
        | none => exact .done (shows_none_iff.mpr Ends.lieIn_none)
        | some stop => exact .done (shows_single (foundInside stop rfl))
      · exact .done (shows_none_iff.mpr (Ends.lieIn_single beyond))
  | reference name =>
      dsimp only
      rw [resolve_outer]
      rcases resolved : embedding.inner.resolve name with cause | rule
      · exact .fault
      · have meaning := embedding.meanings name rule within
          (ruleOf_of_resolve resolved)
        exact Inquiry.accompanies_question (fun _ => embedding.Shows)
          ⟨⟨meaning, inside⟩, rfl⟩ fun _ _ shows => shows
  | sequence parts =>
      exact accompanies_inTurn childWithin (shows_single inside)
  | alternation branches =>
      exact accompanies_anyOf childWithin inside
  | option body =>
      have bodyWithin := embedding.parts _ body within
        (List.mem_singleton_self body)
      refine Inquiry.accompanies_bind
        (Inquiry.accompanies_question (fun _ => embedding.Shows)
          ⟨⟨bodyWithin, inside⟩, rfl⟩ fun _ _ shows => shows) ?_
      intro later found found' shows
      exact .done (shows.union (shows_single inside))
  | repetition bounds body =>
      exact accompanies_repetition
        (embedding.parts _ body within (List.mem_singleton_self body)) inside

/-! ## Visits -/

/-- The entries for visits in the shorter input are shown by those for their
counterparts. Beyond the shorter input only later ends are filed. -/
structure Memories
    (embedding : Embedding) (memory memory' : Memory) : Prop where
  shown : ∀ visit, visit.offset.toNat ≤ embedding.inner.input.size →
    Option.Rel embedding.Shows (memory.table.find? visit)
      (memory'.table.find? (visit.displaced embedding.lead))
  beyond : ∀ visit ends, embedding.Beyond visit.offset →
    memory'.table.find? visit = some ends → ends.LieIn embedding.Beyond

section Memories

variable {memory memory' later later' : Memory}

theorem memories_empty {trace trace' : Trace} :
    embedding.Memories ⟨.empty, trace⟩ ⟨.empty, trace'⟩ := by
  constructor
  · intro visit _
    rw [Table.find?_empty, Table.find?_empty]
    exact .none
  · intro visit ends _ filed
    rw [Table.find?_empty] at filed
    cases filed

theorem Memories.insert
    {visit : Visit} {ends shown : Ends}
    (memories : embedding.Memories memory memory')
    (inside : visit.offset.toNat ≤ embedding.inner.input.size)
    (shows : embedding.Shows ends shown)
    (table : later.table = memory.table.insert visit ends)
    (table' : later'.table =
      memory'.table.insert (visit.displaced embedding.lead) shown) :
    embedding.Memories later later' := by
  constructor
  · intro other otherInside
    rw [table, table', Table.find?_insert, Table.find?_insert]
    simp only [Visit.displaced_injective.eq_iff]
    split
    · exact .some shows
    · exact memories.shown other otherInside
  · intro other found otherBeyond filed
    have different : visit.displaced embedding.lead ≠ other := by
      rintro rfl
      exact otherBeyond.not_displaced inside rfl
    rw [table', Table.find?_insert, if_neg different] at filed
    exact memories.beyond other found otherBeyond filed

/-- What is filed beyond the shorter input does not matter for it. -/
theorem Memories.after_aside
    (memories : embedding.Memories memory memory')
    (confined : Confined embedding.Beyond memory' later') :
    embedding.Memories memory later' := by
  refine ⟨?_, confined.within⟩
  intro visit inside
  have notBeyond :
      ¬ embedding.Beyond (visit.displaced embedding.lead).offset :=
    fun beyond => beyond.not_displaced inside rfl
  rw [confined.elsewhere _ notBeyond]
  exact memories.shown visit inside

end Memories

section Visits

variable {room : Nat} {active : List Visit} {occurrence : Occurrence}
  {offset : Offset} {memory memory' : Memory}

/-- A visit beyond the shorter input is put aside. -/
theorem tallies_aside
    (beyond : embedding.Beyond offset)
    (memories : embedding.Memories memory memory') :
    Tallies embedding.Memories (fun _ => ¬ embedding.AtEnd)
      (fun _ => Ends.LieIn embedding.Beyond) (.ok (), memory)
      (perform (visit embedding.outer room active occurrence offset)
        memory') := by
  have confined : Upholds (Confined embedding.Beyond memory')
      (visit embedding.outer room active occurrence offset)
      (Ends.LieIn embedding.Beyond) :=
    visit_confined (embedding.upward_beyond.retains embedding.addressable)
      beyond
  obtain ⟨confinedLater, found⟩ :=
    confined memory' ⟨memories.beyond, fun _ _ => rfl⟩
  generalize perform
    (visit embedding.outer room active occurrence offset) memory' =
    performed at confinedLater found ⊢
  obtain ⟨cause | ends, later'⟩ := performed
  · exact .excused beyond.not_atEnd
  · exact .values (memories.after_aside confinedLater) (found ends rfl)

/-- How a computation on the shorter input compares with its counterpart on the
longer one. -/
abbrev Compares
    (embedding : Embedding) (left right : Except Fault Ends × Memory) : Prop :=
  Tallies embedding.Memories (fun _ => ¬ embedding.AtEnd) embedding.Shows
    left right

/-- Fresh evaluations at an offset of the shorter input and at the displaced one
compare if the visits that they make compare. -/
theorem evaluate_compares
    {active' : List Visit}
    (within : embedding.within occurrence.element)
    (inside : offset.toNat ≤ embedding.inner.input.size)
    (below : ∀ question, embedding.Concerns question →
      ∀ memory memory', embedding.Memories memory memory' →
      embedding.Compares
        (perform (visit embedding.inner room
          (occurrence.visitAt offset :: active) question.1 question.2) memory)
        (perform (visit embedding.outer room
          (occurrence.visitAt (displace embedding.lead offset) :: active')
          question.1 (displace embedding.lead question.2)) memory'))
    (memories : embedding.Memories memory memory') :
    embedding.Compares
      (perform (evaluate embedding.inner room active occurrence offset) memory)
      (perform (evaluate embedding.outer room active' occurrence
        (displace embedding.lead offset)) memory') := by
  have inquired : Tallies embedding.Memories (fun _ => ¬ embedding.AtEnd)
      (fun ends shown => ∃ _ : Replies, embedding.Shows ends shown)
      (perform ((inquiry embedding.inner occurrence offset).carryOut
        fun question => visit embedding.inner room
          (occurrence.visitAt offset :: active) question.1 question.2) memory)
      (perform ((inquiry embedding.outer occurrence
        (displace embedding.lead offset)).carryOut
        fun question => visit embedding.outer room
          (occurrence.visitAt (displace embedding.lead offset) :: active')
          question.1 question.2) memory') := by
    have accompanies : Inquiry.Accompanies embedding.manner
        (fun _ => embedding.Shows) []
        (inquiry embedding.inner occurrence offset)
        (inquiry embedding.outer occurrence
          (displace embedding.lead offset)) :=
      accompanies_inquiry within inside
    refine accompanies.carryOut (memoizes_visit embedding.inner room _) ?_ ?_
      memories fun _ member => nomatch member
    · rintro question _ ⟨concerns, rfl⟩
      exact below question concerns
    · intro question' beyond state state' states
      exact tallies_aside beyond states
  rw [perform_evaluate, perform_evaluate]
  generalize perform ((inquiry embedding.inner occurrence offset).carryOut
    fun question => visit embedding.inner room
      (occurrence.visitAt offset :: active) question.1 question.2) memory =
    performed at inquired ⊢
  generalize perform ((inquiry embedding.outer occurrence
    (displace embedding.lead offset)).carryOut
    fun question => visit embedding.outer room
      (occurrence.visitAt (displace embedding.lead offset) :: active')
      question.1 question.2) memory' = performed' at inquired ⊢
  cases inquired with
  | values later agreed =>
      obtain ⟨_, shows⟩ := agreed
      exact .values
        (later.insert inside shows table_completed table_completed) shows
  | faults => exact .faults
  | excused pardoned => exact .excused pardoned

/-- A visit in the shorter input and its counterpart compare if that is so for
fresh visits. -/
theorem compares_of_fresh
    (inside : offset.toNat ≤ embedding.inner.input.size)
    (memories : embedding.Memories memory memory')
    (fresh : memory.table.find? (occurrence.visitAt offset) = none →
      memory'.table.find?
        (occurrence.visitAt (displace embedding.lead offset)) = none →
      occurrence.visitAt offset ∉ active →
      occurrence.visitAt (displace embedding.lead offset) ∉
        active.map (Visit.displaced embedding.lead) →
      embedding.Compares
        (perform (visit embedding.inner room active occurrence offset) memory)
        (perform (visit embedding.outer room
          (active.map (Visit.displaced embedding.lead)) occurrence
          (displace embedding.lead offset)) memory')) :
    embedding.Compares
      (perform (visit embedding.inner room active occurrence offset) memory)
      (perform (visit embedding.outer room
        (active.map (Visit.displaced embedding.lead)) occurrence
        (displace embedding.lead offset)) memory') := by
  have entries := memories.shown (occurrence.visitAt offset) inside
  rw [← Occurrence.visitAt_displace] at entries
  have underWayTogether :
      occurrence.visitAt (displace embedding.lead offset) ∈
          active.map (Visit.displaced embedding.lead) ↔
        occurrence.visitAt offset ∈ active := by
    rw [Occurrence.visitAt_displace]
    exact List.mem_map_of_injective Visit.displaced_injective
  rcases filed : memory.table.find? (occurrence.visitAt offset) with
    _ | known <;>
  rcases filed' : memory'.table.find?
    (occurrence.visitAt (displace embedding.lead offset)) with _ | shown <;>
  rw [filed, filed'] at entries
  · by_cases underWay : occurrence.visitAt offset ∈ active
    · rw [perform_visit_of_under_way filed underWay,
        perform_visit_of_under_way filed' (underWayTogether.mpr underWay)]
      exact .values memories (shows_none_iff.mpr Ends.lieIn_none)
    · exact fresh filed filed' underWay (mt underWayTogether.mp underWay)
  · cases entries
  · cases entries
  · obtain ⟨shows⟩ := entries
    rw [perform_visit_of_filed filed, perform_visit_of_filed filed']
    exact .values memories shows

/-- Visits in the shorter input compare with their counterparts in the longer
one. -/
theorem visit_compares
    (within : embedding.within occurrence.element)
    (inside : offset.toNat ≤ embedding.inner.input.size)
    (memories : embedding.Memories memory memory') :
    embedding.Compares
      (perform (visit embedding.inner room active occurrence offset) memory)
      (perform (visit embedding.outer room
        (active.map (Visit.displaced embedding.lead)) occurrence
        (displace embedding.lead offset)) memory') := by
  induction room generalizing active occurrence offset memory memory' with
  | zero =>
      refine compares_of_fresh inside memories ?_
      intro unfiled unfiled' notUnderWay notUnderWay'
      rw [perform_visit_zero unfiled notUnderWay,
        perform_visit_zero unfiled' notUnderWay', List.length_map]
      exact .faults
  | succ room inductionHypothesis =>
      refine compares_of_fresh inside memories ?_
      intro unfiled unfiled' notUnderWay notUnderWay'
      rw [perform_visit_succ unfiled notUnderWay,
        perform_visit_succ unfiled' notUnderWay']
      refine evaluate_compares within inside ?_ memories
      intro question concerns later later' laterMemories
      exact inductionHypothesis concerns.within concerns.inside laterMemories

end Visits

/-- What is found in the longer input shows what is found in the shorter
one. -/
theorem run_compares
    {limit : Nat} {occurrence : Occurrence} {offset : Offset}
    (within : embedding.within occurrence.element)
    (inside : offset.toNat ≤ embedding.inner.input.size) :
    embedding.Compares (run embedding.inner limit occurrence offset)
      (run embedding.outer limit occurrence
        (displace embedding.lead offset)) :=
  visit_compares within inside memories_empty

end Embedding

end AbnfMatching
