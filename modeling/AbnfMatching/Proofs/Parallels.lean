import AbnfMatching.Proofs.EndSets
import AbnfMatching.Proofs.Faults
import Mathlib.Data.List.Forall2

/-!
# Parallel inquiries

Two matches may use different grammars, begin at different places or have
different limits, and go through the same motions all the same. What they have
in common is laid down in a likeness, which says when trees, elements and faults
of the two count as alike. Alike elements are evaluated by inquiries that run
parallel: as long as they are given the same replies, they put alike questions
and come to the same value or to alike faults.

The second match may stop with a fault that is excused. From then on the first
one is free.
-/

namespace AbnfMatching

/-- Two outcomes agree if both are values that agree or both are errors that
agree, or if the second one is an excused error. -/
inductive Agree {ε ε' α α' : Type}
    (errors : ε → ε' → Prop) (excused : ε' → Prop) (values : α → α' → Prop) :
    Except ε α → Except ε' α' → Prop
  | values {value : α} {value' : α'} :
      values value value' →
      Agree errors excused values (.ok value) (.ok value')
  | errors {error : ε} {error' : ε'} :
      errors error error' →
      Agree errors excused values (.error error) (.error error')
  | excused {outcome : Except ε α} {error : ε'} :
      excused error →
      Agree errors excused values outcome (.error error)

theorem agree_self
    {ε α : Type} {errors : ε → ε → Prop} {excused : ε → Prop}
    {values : α → α → Prop} {outcome : Except ε α}
    (agreed : ∀ value, outcome = .ok value → values value value)
    (alike : ∀ error, outcome = .error error → errors error error) :
    Agree errors excused values outcome outcome := by
  cases outcome with
  | ok value => exact .values (agreed value rfl)
  | error error => exact .errors (alike error rfl)

theorem Agree.imp
    {ε ε' α α' : Type} {errors : ε → ε' → Prop} {excused : ε' → Prop}
    {values wider : α → α' → Prop} {left : Except ε α} {right : Except ε' α'}
    (agree : Agree errors excused values left right)
    (widen : ∀ value value', values value value' → wider value value') :
    Agree errors excused wider left right := by
  cases agree with
  | values agreed => exact .values (widen _ _ agreed)
  | errors alike => exact .errors alike
  | excused pardoned => exact .excused pardoned

/-- More errors may be excused. -/
theorem Agree.pardon
    {ε ε' α α' : Type} {errors : ε → ε' → Prop} {excused wider : ε' → Prop}
    {values : α → α' → Prop} {left : Except ε α} {right : Except ε' α'}
    (agree : Agree errors excused values left right)
    (widen : ∀ error, excused error → wider error) :
    Agree errors wider values left right := by
  cases agree with
  | values agreed => exact .values agreed
  | errors alike => exact .errors alike
  | excused pardoned => exact .excused (widen _ pardoned)

/-- Agreement carries over from an outcome to an equal one, and to one that was
excused if what agrees with an excused error is excused as well. -/
theorem Agree.after
    {ε ε' α : Type} {errors : ε → ε' → Prop} {excused : ε → Prop}
    {excused' : ε' → Prop} {left middle : Except ε α} {right : Except ε' α}
    (second : Agree errors excused' (· = ·) middle right)
    (first : Agree (· = ·) excused (· = ·) left middle)
    (pass : ∀ error error', excused error → errors error error' →
      excused' error') :
    Agree errors excused' (· = ·) left right := by
  cases first with
  | values same => exact same ▸ second
  | errors same => exact same ▸ second
  | excused pardoned =>
      cases second with
      | errors alike => exact .excused (pass _ _ pardoned alike)
      | excused pardoned' => exact .excused pardoned'

/-- The outcomes are equal, unless the second one is an excused error. -/
def EqualUnless {ε α : Type}
    (excused : ε → Prop) (left right : Except ε α) : Prop :=
  (∀ error, right = .error error → ¬ excused error) → left = right

theorem Agree.equalUnless
    {ε α : Type} {errors : ε → ε → Prop} {excused : ε → Prop}
    {left right : Except ε α}
    (agree : Agree errors excused (· = ·) left right)
    (equal : ∀ error error', errors error error' → error = error') :
    EqualUnless excused left right := by
  intro strict
  cases agree with
  | values same => rw [same]
  | errors alike => rw [equal _ _ alike]
  | excused pardoned => exact absurd pardoned (strict _ rfl)

theorem Agree.eq
    {ε α : Type} {errors : ε → ε → Prop} {excused : ε → Prop}
    {left right : Except ε α}
    (agree : Agree errors excused (· = ·) left right)
    (equal : ∀ error error', errors error error' → error = error')
    (never : ∀ error, ¬ excused error) :
    left = right :=
  agree.equalUnless equal fun error _ => never error

/-! ## What the input alone decides -/

section Setting

variable {left right : Setting}

theorem Bounds.rounds_eq_of_input_eq
    (same : left.input = right.input) (bounds : Bounds) :
    bounds.rounds left = bounds.rounds right := by
  rw [rounds, rounds, same]

theorem Setting.terminalEnd_eq_of_input_eq
    (same : left.input = right.input) {value : Terminal} {offset : Offset} :
    left.terminalEnd value offset = right.terminalEnd value offset := by
  obtain ⟨input, grammar, verbose⟩ := left
  obtain ⟨input', grammar', verbose'⟩ := right
  dsimp only at same
  subst same
  rfl

theorem Setting.not_isUnresolved_of_terminalEnd
    {setting : Setting} {value : Terminal} {offset : Offset} {cause : Fault}
    (failed : setting.terminalEnd value offset = .error cause) :
    ¬ cause.IsUnresolved := by
  unfold terminalEnd at failed
  dsimp only at failed
  split at failed
  · cases failed
  · split at failed
    · cases failed
      exact id
    · split at failed <;> cases failed

end Setting

/-! ## Likenesses -/

/-- What counts as alike in two matches: the trees in which they move, the
elements that they evaluate and the faults with which they stop. Some faults of
the second match are excused. -/
structure Likeness where
  trees : Tree → Tree → Prop
  elements : Element → Element → Prop
  faults : Fault → Fault → Prop
  excused : Fault → Prop

/-- Two elements of one kind whose constituents are alike. A repetition of none
or one round counts as an option in the second place. -/
inductive SameKind (alike : Element → Element → Prop) :
    Element → Element → Prop
  | terminal (value : Terminal) :
      SameKind alike (.terminal value) (.terminal value)
  | reference (name name' : RuleName) :
      SameKind alike (.reference name) (.reference name')
  | sequence {parts parts' : List Element} :
      List.Forall₂ alike parts parts' →
      SameKind alike (.sequence parts) (.sequence parts')
  | alternation {branches branches' : List Element} :
      List.Forall₂ alike branches branches' →
      SameKind alike (.alternation branches) (.alternation branches')
  | option {body body' : Element} :
      alike body body' →
      SameKind alike (.option body) (.option body')
  | repetition (bounds : Bounds) {body body' : Element} :
      alike body body' →
      SameKind alike (.repetition bounds body) (.repetition bounds body')
  | counted {bounds : Bounds} {body body' : Element} :
      bounds.minimum = 0 →
      bounds.maximum = some 1 →
      alike body body' →
      SameKind alike (.option body) (.repetition bounds body')

section SameKind

variable {alike : Element → Element → Prop} {element element' : Element}

theorem sameKind_self
    (parts : ∀ part ∈ element.children, alike part part) :
    SameKind alike element element := by
  cases element with
  | terminal value => exact .terminal value
  | reference name => exact .reference name name
  | sequence elements => exact .sequence (List.forall₂_same.mpr parts)
  | alternation branches => exact .alternation (List.forall₂_same.mpr parts)
  | option body => exact .option (parts body (List.mem_singleton_self body))
  | repetition bounds body =>
      exact .repetition bounds (parts body (List.mem_singleton_self body))

/-- What the constituents of the first element have in common may be added. -/
theorem SameKind.restrict
    {within : Element → Prop}
    (kinds : SameKind alike element element')
    (parts : ∀ part ∈ element.children, within part) :
    SameKind (fun part part' => alike part part' ∧ within part)
      element element' := by
  have restricted : ∀ {front back : List Element},
      List.Forall₂ alike front back →
      (∀ part ∈ front, within part) →
      List.Forall₂ (fun part part' => alike part part' ∧ within part)
        front back := by
    intro front back related members
    have both := (List.forall₂_and_left front back).mpr ⟨members, related⟩
    exact both.imp fun _ _ held => held.symm
  cases kinds with
  | terminal value => exact .terminal value
  | reference name name' => exact .reference name name'
  | sequence related => exact .sequence (restricted related parts)
  | alternation related => exact .alternation (restricted related parts)
  | option related =>
      exact .option ⟨related, parts _ (List.mem_singleton_self _)⟩
  | repetition bounds related =>
      exact .repetition bounds
        ⟨related, parts _ (List.mem_singleton_self _)⟩
  | counted minimum maximum related =>
      exact .counted minimum maximum
        ⟨related, parts _ (List.mem_singleton_self _)⟩

end SameKind

theorem biUnique_eq {α : Type} : Relator.BiUnique ((· = ·) : α → α → Prop) := by
  constructor
  · rintro left right _ rfl rfl
    rfl
  · rintro _ left right rfl rfl
    rfl

namespace Likeness

variable {likeness : Likeness}

/-- Alike elements at corresponding places. -/
structure Occurrences
    (likeness : Likeness) (left right : Occurrence) : Prop where
  trees : likeness.trees left.tree right.tree
  index : left.index = right.index
  elements : likeness.elements left.element right.element

/-- Two settings in which alike elements are evaluated alike: the inputs are the
same, alike references mean alike rules or fail alike, and the faults that do
not name a rule count as alike to themselves. Trees correspond one to one. -/
structure Relates
    (likeness : Likeness) (left right : Setting) : Prop where
  input : left.input = right.input
  trees : Relator.BiUnique likeness.trees
  kinds : ∀ element element', likeness.elements element element' →
    SameKind likeness.elements element element'
  sizes : ∀ element element', likeness.elements element element' →
    element.size = element'.size
  meaning : ∀ name name',
    likeness.elements (.reference name) (.reference name') →
    Agree likeness.faults likeness.excused
      (fun rule rule' => likeness.trees (.rule rule.key) (.rule rule'.key) ∧
        likeness.elements rule.element rule'.element)
      (left.resolve name) (right.resolve name')
  faults : ∀ cause, ¬ cause.IsUnresolved → likeness.faults cause cause

section Relates

variable {left right : Setting}

theorem Relates.terminalEnd
    (relates : likeness.Relates left right)
    (value : Terminal) (offset : Offset) :
    Agree likeness.faults likeness.excused (· = ·)
      (left.terminalEnd value offset) (right.terminalEnd value offset) := by
  rw [Setting.terminalEnd_eq_of_input_eq relates.input]
  refine agree_self (fun _ _ => rfl) ?_
  intro cause failed
  exact relates.faults cause (Setting.not_isUnresolved_of_terminalEnd failed)

/-- Neighbours that are pairwise alike stand at corresponding places. -/
theorem Relates.siblings
    (relates : likeness.Relates left right)
    {tree tree' : Tree} (trees : likeness.trees tree tree')
    {parts parts' : List Element}
    (alike : List.Forall₂ likeness.elements parts parts') (index : Nat) :
    List.Forall₂ likeness.Occurrences
      (Occurrence.siblings tree index parts)
      (Occurrence.siblings tree' index parts') := by
  induction alike generalizing index with
  | nil =>
      exact .nil
  | cons head _ inductionHypothesis =>
      rw [Occurrence.siblings, Occurrence.siblings, ← relates.sizes _ _ head]
      exact .cons ⟨trees, rfl, head⟩ (inductionHypothesis _)

end Relates

/-- Equal elements are alike if they lie within some bounds, and equal faults if
they are tolerated. -/
def restricted
    (trees : Tree → Tree → Prop) (within : Element → Prop)
    (tolerated excused : Fault → Prop) : Likeness where
  trees := trees
  elements left right := left = right ∧ within left
  faults left right := left = right ∧ tolerated left
  excused := excused

/-- Settings with the same input are related within bounds that contain, with an
element, its constituents and, with a reference, the element that it means. -/
theorem relates_restricted
    {trees : Tree → Tree → Prop} {within : Element → Prop}
    {tolerated excused : Fault → Prop} {left right : Setting}
    (same : left.input = right.input)
    (unique : Relator.BiUnique trees)
    (closed : ∀ element part, within element → part ∈ element.children →
      within part)
    (meaning : ∀ name, within (.reference name) →
      Agree (fun cause cause' => cause = cause' ∧ tolerated cause) excused
        (fun rule rule' => trees (.rule rule.key) (.rule rule'.key) ∧
          rule.element = rule'.element ∧ within rule.element)
        (left.resolve name) (right.resolve name))
    (others : ∀ cause : Fault, ¬ cause.IsUnresolved → tolerated cause) :
    (restricted trees within tolerated excused).Relates left right where
  input := same
  trees := unique
  kinds := by
    rintro element _ ⟨rfl, inBounds⟩
    exact (sameKind_self fun _ _ => rfl).restrict fun part member =>
      closed element part inBounds member
  sizes := by
    rintro element _ ⟨rfl, _⟩
    rfl
  meaning := by
    rintro name _ ⟨⟨⟩, inBounds⟩
    exact meaning name inBounds
  faults := fun cause named => ⟨rfl, others cause named⟩

/-- How two computations compare that were started in related states: their
outcomes agree, and after two values the states are related again. -/
inductive Compares
    {α α' σ τ : Type} (likeness : Likeness)
    (states : σ → τ → Prop) (values : α → α' → Prop) :
    Except Fault α × σ → Except Fault α' × τ → Prop
  | values {value : α} {value' : α'} {state : σ} {state' : τ} :
      states state state' →
      values value value' →
      Compares likeness states values (.ok value, state) (.ok value', state')
  | faults {cause cause' : Fault} {state : σ} {state' : τ} :
      likeness.faults cause cause' →
      Compares likeness states values (.error cause, state)
        (.error cause', state')
  | excused {result : Except Fault α × σ} {cause : Fault} {state' : τ} :
      likeness.excused cause →
      Compares likeness states values result (.error cause, state')

section Compares

variable {α α' σ τ : Type} {states : σ → τ → Prop} {values : α → α' → Prop}
  {left : Except Fault α × σ} {right : Except Fault α' × τ}

theorem Compares.outcomes
    (compares : likeness.Compares states values left right) :
    Agree likeness.faults likeness.excused values left.1 right.1 := by
  cases compares with
  | values _ agreed => exact .values agreed
  | faults alike => exact .errors alike
  | excused pardoned => exact .excused pardoned

/-- If states do not matter, outcomes that agree are all that counts. -/
theorem compares_of_outcomes
    (outcomes : Agree likeness.faults likeness.excused values left.1
      right.1) :
    likeness.Compares (fun _ _ => True) values left right := by
  obtain ⟨result, state⟩ := left
  obtain ⟨result', state'⟩ := right
  dsimp only at outcomes
  cases outcomes with
  | values agreed => exact .values trivial agreed
  | errors alike => exact .faults alike
  | excused pardoned => exact .excused pardoned

end Compares

end Likeness

/-! ## Parallel inquiries -/

namespace Inquiry

variable {Question Question' Reply α α' β β' σ τ : Type}

/-- Two inquiries run parallel if, given the same replies, they put questions
that are related one by one and come to values or faults that agree. -/
inductive Parallel
    (likeness : Likeness) (questions : Question → Question' → Prop)
    (values : α → α' → Prop) :
    Inquiry Question Reply α → Inquiry Question' Reply α' → Prop
  | done {value : α} {value' : α'} :
      values value value' →
      Parallel likeness questions values (done value) (done value')
  | fault {cause cause' : Fault} :
      likeness.faults cause cause' →
      Parallel likeness questions values (fault cause) (fault cause')
  | excused {inquiry : Inquiry Question Reply α} {cause : Fault} :
      likeness.excused cause →
      Parallel likeness questions values inquiry (fault cause)
  | ask {question : Question} {question' : Question'}
      {resume : Reply → Inquiry Question Reply α}
      {resume' : Reply → Inquiry Question' Reply α'} :
      questions question question' →
      (∀ reply, Parallel likeness questions values (resume reply)
        (resume' reply)) →
      Parallel likeness questions values (ask question resume)
        (ask question' resume')

section Parallel

variable {likeness : Likeness} {questions : Question → Question' → Prop}
  {values : α → α' → Prop} {inquiry : Inquiry Question Reply α}
  {inquiry' : Inquiry Question' Reply α'}

theorem parallel_bind
    {results : β → β' → Prop} {next : α → Inquiry Question Reply β}
    {next' : α' → Inquiry Question' Reply β'}
    (first : Parallel likeness questions values inquiry inquiry')
    (second : ∀ value value', values value value' →
      Parallel likeness questions results (next value) (next' value')) :
    Parallel likeness questions results (inquiry >>= next)
      (inquiry' >>= next') := by
  induction first with
  | done agreed =>
      exact second _ _ agreed
  | fault alike =>
      exact .fault alike
  | excused pardoned =>
      exact .excused pardoned
  | ask related _ inductionHypothesis =>
      exact .ask related inductionHypothesis

theorem parallel_pure (value : α) :
    Parallel likeness questions (· = ·)
      (pure value : Inquiry Question Reply α) (pure value) :=
  .done rfl

theorem parallel_question
    {question : Question} {question' : Question'}
    (related : questions question question') :
    Parallel likeness questions (· = ·)
      (ask question pure : Inquiry Question Reply Reply)
      (ask question' pure) :=
  .ask related parallel_pure

theorem parallel_lift
    {result : Except Fault α} {result' : Except Fault α'}
    (agree : Agree likeness.faults likeness.excused values result result') :
    Parallel likeness questions values
      (liftM result : Inquiry Question Reply α) (liftM result') := by
  cases agree with
  | values agreed => exact .done agreed
  | errors alike => exact .fault alike
  | excused pardoned => exact .excused pardoned

/-- Parallel inquiries are carried out alike if related questions are answered
alike. -/
theorem Parallel.carryOut
    {states : σ → τ → Prop}
    {answer : Question → ExceptT Fault (StateM σ) Reply}
    {answer' : Question' → ExceptT Fault (StateM τ) Reply}
    {state : σ} {state' : τ}
    (parallel : Parallel likeness questions values inquiry inquiry')
    (answers : ∀ question question', questions question question' →
      ∀ state state', states state state' →
      likeness.Compares states (· = ·) (perform (answer question) state)
        (perform (answer' question') state'))
    (begins : states state state') :
    likeness.Compares states values
      (perform (inquiry.carryOut answer) state)
      (perform (inquiry'.carryOut answer') state') := by
  induction parallel generalizing state state' with
  | done agreed =>
      exact .values begins agreed
  | fault alike =>
      exact .faults alike
  | excused pardoned =>
      exact .excused pardoned
  | @ask question question' resume resume' related _ inductionHypothesis =>
      rw [Inquiry.carryOut, Inquiry.carryOut, perform_bind, perform_bind]
      have compares :=
        answers question question' related state state' begins
      generalize perform (answer question) state = performed at compares ⊢
      generalize perform (answer' question') state' = performed'
        at compares ⊢
      cases compares with
      | values later same =>
          subst same
          exact inductionHypothesis _ later
      | faults alike => exact .faults alike
      | excused pardoned => exact .excused pardoned

end Parallel

end Inquiry

/-! ## The inquiries of exhaustive matching -/

namespace Exhaustive

variable {Question Question' : Type} {likeness : Likeness}
  {questions : Question → Question' → Prop}

section Parts

variable {item : Offset → Inquiry Question Ends Ends}
  {item' : Offset → Inquiry Question' Ends Ends}

theorem parallel_fromAny
    (items : ∀ start,
      Inquiry.Parallel likeness questions (· = ·) (item start) (item' start))
    (starts : List Offset) :
    Inquiry.Parallel likeness questions (· = ·)
      (fromAny item starts) (fromAny item' starts) := by
  induction starts with
  | nil =>
      exact Inquiry.parallel_pure _
  | cons head tail inductionHypothesis =>
      refine Inquiry.parallel_bind (items head) ?_
      rintro first _ rfl
      refine Inquiry.parallel_bind inductionHypothesis ?_
      rintro others _ rfl
      exact Inquiry.parallel_pure _

theorem parallel_advance
    (items : ∀ start,
      Inquiry.Parallel likeness questions (· = ·) (item start) (item' start))
    (rounds : Nat) (frontier : Ends) :
    Inquiry.Parallel likeness questions (· = ·)
      (advance item rounds frontier) (advance item' rounds frontier) := by
  induction rounds generalizing frontier with
  | zero =>
      exact Inquiry.parallel_pure _
  | succ rounds inductionHypothesis =>
      rw [advance, advance]
      split
      · exact Inquiry.parallel_pure _
      · refine Inquiry.parallel_bind (parallel_fromAny items _) ?_
        rintro next _ rfl
        exact inductionHypothesis next

theorem parallel_extend
    (items : ∀ start,
      Inquiry.Parallel likeness questions (· = ·) (item start) (item' start))
    (left : Option Nat) (accepted frontier : Ends) :
    Inquiry.Parallel likeness questions (· = ·)
      (extend item left accepted frontier)
      (extend item' left accepted frontier) := by
  induction left, accepted, frontier using extend.induct with
  | case1 accepted frontier =>
      rw [extend_filled, extend_filled]
      exact Inquiry.parallel_pure _
  | case2 left accepted frontier unfilled inductionHypothesis =>
      rw [extend_round unfilled, extend_round unfilled]
      refine Inquiry.parallel_bind (parallel_fromAny items _) ?_
      rintro next _ rfl
      by_cases settled : accepted.union next = accepted
      · rw [if_pos settled, if_pos settled]
        exact Inquiry.parallel_pure _
      · rw [if_neg settled, if_neg settled]
        exact inductionHypothesis next settled

end Parts

section Level

variable {item : Occurrence → Offset → Inquiry Question Ends Ends}
  {item' : Occurrence → Offset → Inquiry Question' Ends Ends}
  {parts parts' : List Occurrence}

theorem parallel_inTurn
    (items : List.Forall₂
      (fun part part' => ∀ start, Inquiry.Parallel likeness questions (· = ·)
        (item part start) (item' part' start)) parts parts')
    (current : Ends) :
    Inquiry.Parallel likeness questions (· = ·)
      (inTurn item parts current) (inTurn item' parts' current) := by
  induction items generalizing current with
  | nil =>
      exact Inquiry.parallel_pure _
  | cons head _ inductionHypothesis =>
      rw [inTurn, inTurn]
      split
      · exact Inquiry.parallel_pure _
      · refine Inquiry.parallel_bind (parallel_fromAny head _) ?_
        rintro next _ rfl
        exact inductionHypothesis next

theorem parallel_anyOf
    (items : List.Forall₂
      (fun part part' => ∀ start, Inquiry.Parallel likeness questions (· = ·)
        (item part start) (item' part' start)) parts parts')
    (offset : Offset) :
    Inquiry.Parallel likeness questions (· = ·)
      (anyOf item parts offset) (anyOf item' parts' offset) := by
  induction items with
  | nil =>
      exact Inquiry.parallel_pure _
  | cons head _ inductionHypothesis =>
      refine Inquiry.parallel_bind (head offset) ?_
      rintro first _ rfl
      refine Inquiry.parallel_bind inductionHypothesis ?_
      rintro others _ rfl
      exact Inquiry.parallel_pure _

/-- What a single round adds to its start is what an option finds there. -/
theorem union_of_one_round {offset : Offset} {found : Ends} :
    (Ends.single offset).union (found.union .none) =
      found.union (.single offset) := by
  apply Ends.eq_of_mem_iff
  intro stop
  simp only [Ends.mem_union, Ends.not_mem_none, or_false]
  exact or_comm

/-- Alike occurrences are evaluated by parallel inquiries. -/
theorem parallel_inquiry
    {left right : Setting} {occurrence occurrence' : Occurrence}
    (relates : likeness.Relates left right)
    (alike : likeness.Occurrences occurrence occurrence')
    (offset : Offset) :
    Inquiry.Parallel likeness
      (fun question question' =>
        likeness.Occurrences question.1 question'.1 ∧
          question.2 = question'.2)
      (· = ·)
      (inquiry left occurrence offset) (inquiry right occurrence' offset) := by
  obtain ⟨tree, index, element⟩ := occurrence
  obtain ⟨tree', index', element'⟩ := occurrence'
  obtain ⟨trees, same, elements⟩ := alike
  dsimp only at trees same elements
  subst same
  unfold inquiry level
  cases relates.kinds element element' elements with
  | terminal value =>
      refine Inquiry.parallel_bind
        (Inquiry.parallel_lift (relates.terminalEnd value offset)) ?_
      rintro found _ rfl
      cases found <;> exact Inquiry.parallel_pure _
  | reference name name' =>
      refine Inquiry.parallel_bind
        (Inquiry.parallel_lift (relates.meaning name name' elements)) ?_
      intro rule rule' meanings
      exact Inquiry.parallel_question ⟨⟨meanings.1, rfl, meanings.2⟩, rfl⟩
  | sequence related =>
      refine parallel_inTurn ?_ _
      refine (relates.siblings trees related (index + 1)).imp ?_
      intro part part' partsAlike start
      exact Inquiry.parallel_question ⟨partsAlike, rfl⟩
  | alternation related =>
      refine parallel_anyOf ?_ _
      refine (relates.siblings trees related (index + 1)).imp ?_
      intro part part' partsAlike start
      exact Inquiry.parallel_question ⟨partsAlike, rfl⟩
  | option related =>
      refine Inquiry.parallel_bind
        (Inquiry.parallel_question ⟨⟨trees, rfl, related⟩, rfl⟩) ?_
      rintro found _ rfl
      exact Inquiry.parallel_pure _
  | repetition bounds related =>
      refine Inquiry.parallel_bind (parallel_advance ?_ _ _) ?_
      · intro start
        exact Inquiry.parallel_question ⟨⟨trees, rfl, related⟩, rfl⟩
      · rintro reached _ rfl
        refine parallel_extend ?_ _ _ _
        intro start
        exact Inquiry.parallel_question ⟨⟨trees, rfl, related⟩, rfl⟩
  | counted minimum maximum related =>
      dsimp only
      rw [minimum, Bounds.remaining, maximum]
      -- No round is owed, one is allowed, and after it none is left.
      change Inquiry.Parallel likeness _ (· = ·) _
        (extend _ (some 1) (.single offset) (.single offset))
      rw [extend_round (by simp)]
      refine .ask ⟨⟨trees, rfl, related⟩, rfl⟩ ?_
      intro found
      change Inquiry.Parallel likeness _ (· = ·)
        (pure (found.union (.single offset)))
        (if (Ends.single offset).union (found.union .none) = .single offset
          then pure (.single offset)
          else extend _ (some 0)
            ((Ends.single offset).union (found.union .none)) _)
      rw [union_of_one_round, extend_filled]
      split
      · next same =>
          rw [same]
          exact Inquiry.parallel_pure _
      · exact Inquiry.parallel_pure _

end Level

end Exhaustive

/-! ## The inquiries of greedy matching -/

namespace Greedy

variable {Question Question' : Type} {likeness : Likeness}
  {questions : Question → Question' → Prop}

section Level

variable
  {item : Element → Offset → Inquiry Question (Option Offset) (Option Offset)}
  {item' :
    Element → Offset → Inquiry Question' (Option Offset) (Option Offset)}
  {parts parts' : List Element}

theorem parallel_inTurn
    (items : List.Forall₂
      (fun part part' => ∀ start, Inquiry.Parallel likeness questions (· = ·)
        (item part start) (item' part' start)) parts parts')
    (offset : Offset) :
    Inquiry.Parallel likeness questions (· = ·)
      (inTurn item parts offset) (inTurn item' parts' offset) := by
  induction items generalizing offset with
  | nil =>
      exact Inquiry.parallel_pure _
  | cons head _ inductionHypothesis =>
      refine Inquiry.parallel_bind (head offset) ?_
      rintro found _ rfl
      cases found with
      | none => exact Inquiry.parallel_pure _
      | some stop => exact inductionHypothesis stop

theorem parallel_firstOf
    (items : List.Forall₂
      (fun part part' => ∀ start, Inquiry.Parallel likeness questions (· = ·)
        (item part start) (item' part' start)) parts parts')
    (offset : Offset) :
    Inquiry.Parallel likeness questions (· = ·)
      (firstOf item parts offset) (firstOf item' parts' offset) := by
  induction items with
  | nil =>
      exact Inquiry.parallel_pure _
  | cons head _ inductionHypothesis =>
      refine Inquiry.parallel_bind (head offset) ?_
      rintro found _ rfl
      cases found with
      | none => exact inductionHypothesis
      | some stop => exact Inquiry.parallel_pure _

theorem parallel_again
    {left right : Setting}
    {round : Offset → Inquiry Question (Option Offset) (Option Offset)}
    {round' : Offset → Inquiry Question' (Option Offset) (Option Offset)}
    (same : left.input = right.input)
    (items : ∀ start, Inquiry.Parallel likeness questions (· = ·)
      (round start) (round' start))
    (rounds owed : Nat) (offset : Offset) :
    Inquiry.Parallel likeness questions (· = ·)
      (again left round rounds owed offset)
      (again right round' rounds owed offset) := by
  induction rounds generalizing owed offset with
  | zero =>
      exact Inquiry.parallel_pure _
  | succ rounds inductionHypothesis =>
      refine Inquiry.parallel_bind (items offset) ?_
      rintro found _ rfl
      cases found with
      | none =>
          exact Inquiry.parallel_pure _
      | some stop =>
          dsimp only
          rw [same]
          split
          · exact Inquiry.parallel_pure _
          · split
            · exact Inquiry.parallel_pure _
            · exact inductionHypothesis _ _

/-- Alike elements are matched by parallel inquiries. -/
theorem parallel_inquiry
    {left right : Setting} {element element' : Element}
    (relates : likeness.Relates left right)
    (alike : likeness.elements element element')
    (offset : Offset) :
    Inquiry.Parallel likeness
      (fun question question' =>
        likeness.elements question.1 question'.1 ∧
          question.2 = question'.2)
      (· = ·)
      (inquiry left element offset) (inquiry right element' offset) := by
  unfold inquiry level
  cases relates.kinds element element' alike with
  | terminal value =>
      exact Inquiry.parallel_lift (relates.terminalEnd value offset)
  | reference name name' =>
      refine Inquiry.parallel_bind
        (Inquiry.parallel_lift (relates.meaning name name' alike)) ?_
      intro rule rule' meanings
      exact Inquiry.parallel_question ⟨meanings.2, rfl⟩
  | sequence related =>
      refine parallel_inTurn (related.imp ?_) offset
      intro part part' partsAlike start
      exact Inquiry.parallel_question ⟨partsAlike, rfl⟩
  | alternation related =>
      refine parallel_firstOf (related.imp ?_) offset
      intro part part' partsAlike start
      exact Inquiry.parallel_question ⟨partsAlike, rfl⟩
  | option related =>
      refine Inquiry.parallel_bind
        (Inquiry.parallel_question ⟨related, rfl⟩) ?_
      rintro found _ rfl
      cases found <;> exact Inquiry.parallel_pure _
  | repetition bounds related =>
      dsimp only
      rw [Bounds.rounds_eq_of_input_eq relates.input]
      refine parallel_again relates.input ?_ _ _ offset
      intro start
      exact Inquiry.parallel_question ⟨related, rfl⟩
  | counted minimum maximum related =>
      dsimp only
      rw [minimum, Bounds.rounds, maximum]
      refine Inquiry.parallel_bind
        (Inquiry.parallel_question ⟨related, rfl⟩) ?_
      rintro found _ rfl
      -- No round is owed, so that the repetition ends after any round.
      cases found with
      | none => exact Inquiry.parallel_pure _
      | some stop =>
          dsimp only
          split
          · exact Inquiry.parallel_pure _
          · split <;> exact Inquiry.parallel_pure _

end Level

end Greedy

end AbnfMatching
