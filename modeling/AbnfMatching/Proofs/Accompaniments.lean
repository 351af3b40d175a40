import AbnfMatching.Proofs.Faults
import AbnfMatching.Proofs.Simulation

/-!
# One inquiry accompanied by another

A second inquiry may ask for more than a first one and still come to an
agreeing value. It puts every question that the first one puts, in a form of
its own. In between it may put a question once more to which the first inquiry
has had a reply, and it may put questions aside, which do not concern the first
inquiry at all.

Carried out, the two lead to agreeing values if the additional questions do no
harm. A question aside has to keep the states related while the first
computation waits. A question that is put once more is answered as before,
provided that answers stand once they have been given.
-/

namespace AbnfMatching

variable {Question Question' Reply Reply' α α' β β' σ τ : Type}

/-- How one inquiry may accompany another: the form that it gives to a
question, the replies that agree, the questions that it may put aside and the
replies that it may count on there. A lenient manner lets the second computation
stop with a fault. -/
structure Manner (Question Question' Reply Reply' : Type) where
  questions : Question → Question' → Prop
  replies : Reply → Reply' → Prop
  aside : Question' → Prop
  remark : Reply' → Prop
  lenient : Prop

namespace Inquiry

/-- The second inquiry accompanies the first one, where the replies to some
questions are known to begin with. Values agree in the light of all replies
that are known in the end. -/
inductive Accompanies
    (manner : Manner Question Question' Reply Reply')
    (agree : List (Question × Reply) → α → α' → Prop) :
    List (Question × Reply) → Inquiry Question Reply α →
      Inquiry Question' Reply' α' → Prop
  | done {known : List (Question × Reply)} {value : α} {value' : α'} :
      agree known value value' →
      Accompanies manner agree known (done value) (done value')
  | fault {known : List (Question × Reply)} {cause : Fault} :
      Accompanies manner agree known (fault cause) (fault cause)
  | ask {known : List (Question × Reply)} {question : Question}
      {question' : Question'} {resume : Reply → Inquiry Question Reply α}
      {resume' : Reply' → Inquiry Question' Reply' α'} :
      manner.questions question question' →
      (∀ reply reply', manner.replies reply reply' →
        Accompanies manner agree ((question, reply) :: known)
          (resume reply) (resume' reply')) →
      Accompanies manner agree known (ask question resume)
        (ask question' resume')
  | again {known : List (Question × Reply)} {question : Question}
      {question' : Question'} {reply : Reply}
      {inquiry : Inquiry Question Reply α}
      {resume' : Reply' → Inquiry Question' Reply' α'} :
      (question, reply) ∈ known →
      manner.questions question question' →
      (∀ reply', manner.replies reply reply' →
        Accompanies manner agree known inquiry (resume' reply')) →
      Accompanies manner agree known inquiry (ask question' resume')
  | aside {known : List (Question × Reply)} {question' : Question'}
      {inquiry : Inquiry Question Reply α}
      {resume' : Reply' → Inquiry Question' Reply' α'} :
      manner.aside question' →
      (∀ reply', manner.remark reply' →
        Accompanies manner agree known inquiry (resume' reply')) →
      Accompanies manner agree known inquiry (ask question' resume')

section Accompanies

variable {manner : Manner Question Question' Reply Reply'}
  {known : List (Question × Reply)}
  {agree : List (Question × Reply) → α → α' → Prop}
  {inquiry : Inquiry Question Reply α}
  {inquiry' : Inquiry Question' Reply' α'}

theorem accompanies_bind
    {result : List (Question × Reply) → β → β' → Prop}
    {next : α → Inquiry Question Reply β}
    {next' : α' → Inquiry Question' Reply' β'}
    (first : Accompanies manner agree known inquiry inquiry')
    (second : ∀ later value value', agree later value value' →
      Accompanies manner result later (next value) (next' value')) :
    Accompanies manner result known (inquiry >>= next)
      (inquiry' >>= next') := by
  induction first with
  | done agreed =>
      exact second _ _ _ agreed
  | fault =>
      exact .fault
  | ask related _ inductionHypothesis =>
      exact .ask related inductionHypothesis
  | again isKnown related _ inductionHypothesis =>
      exact .again isKnown related inductionHypothesis
  | aside permitted _ inductionHypothesis =>
      exact .aside permitted inductionHypothesis

theorem Accompanies.mono
    {weaker : List (Question × Reply) → α → α' → Prop}
    (accompanies : Accompanies manner agree known inquiry inquiry')
    (weaken : ∀ later value value', agree later value value' →
      weaker later value value') :
    Accompanies manner weaker known inquiry inquiry' := by
  induction accompanies with
  | done agreed =>
      exact .done (weaken _ _ _ agreed)
  | fault =>
      exact .fault
  | ask related _ inductionHypothesis =>
      exact .ask related inductionHypothesis
  | again isKnown related _ inductionHypothesis =>
      exact .again isKnown related inductionHypothesis
  | aside permitted _ inductionHypothesis =>
      exact .aside permitted inductionHypothesis

/-- One question, put in either form, is accompanied. -/
theorem accompanies_question
    (agree : List (Question × Reply) → Reply → Reply' → Prop)
    {question : Question} {question' : Question'}
    (related : manner.questions question question')
    (agreed : ∀ reply reply', manner.replies reply reply' →
      agree ((question, reply) :: known) reply reply') :
    Accompanies manner agree known (ask question pure)
      (ask question' pure) :=
  .ask related fun reply reply' replies => .done (agreed reply reply' replies)

/-- What the second inquiry asks for after the first one has come to its value
are questions aside and such as have been put before. -/
theorem accompanies_done
    {value : α} {allowed : Question' → Prop}
    {acceptable : Question' → Reply' → Prop} {goal : α' → Prop}
    (meets : inquiry'.Meets allowed acceptable goal)
    (silent : inquiry'.Silent)
    (idle : ∀ question', allowed question' →
      (manner.aside question' ∧
        ∀ reply', manner.remark reply' → acceptable question' reply') ∨
      ∃ question reply, (question, reply) ∈ known ∧
        manner.questions question question' ∧
        ∀ reply', manner.replies reply reply' → acceptable question' reply')
    (agreed : ∀ value', goal value' → agree known value value') :
    Accompanies manner agree known (done value) inquiry' := by
  induction inquiry' with
  | done value' =>
      exact .done (agreed value' meets)
  | fault cause =>
      exact absurd (.fault cause) (silent cause)
  | ask question' resume' inductionHypothesis =>
      obtain ⟨permitted, continues⟩ := meets
      have goesOn : ∀ reply', acceptable question' reply' →
          Accompanies manner agree known (done value) (resume' reply') :=
        fun reply' accepted => inductionHypothesis reply'
          (continues reply' accepted)
          fun cause raises => silent cause (.ask raises)
      rcases idle question' permitted with
        ⟨isAside, accepted⟩ | ⟨question, reply, isKnown, related, accepted⟩
      · exact .aside isAside fun reply' remark =>
          goesOn reply' (accepted reply' remark)
      · exact .again isKnown related fun reply' replies =>
          goesOn reply' (accepted reply' replies)

end Accompanies

/-- Answers that stand once they have been given: the same question is answered
in the same way ever after, and nothing else happens. -/
structure Memoizes
    (stands : Question → Reply → σ → Prop)
    (answer : Question → ExceptT Fault (StateM σ) Reply) : Prop where
  given : ∀ question reply state later,
    perform (answer question) state = (.ok reply, later) →
    stands question reply later
  lasts : ∀ question reply other,
    Upholds (stands question reply) (answer other) fun _ => True
  repeated : ∀ question reply state, stands question reply state →
    perform (answer question) state = (.ok reply, state)

/-- Carrying out an inquiry and another one that accompanies it leads to values
that agree. -/
theorem Accompanies.carryOut
    {manner : Manner Question Question' Reply Reply'}
    {known : List (Question × Reply)}
    {agree : List (Question × Reply) → α → α' → Prop}
    {inquiry : Inquiry Question Reply α}
    {inquiry' : Inquiry Question' Reply' α'}
    {related : σ → τ → Prop} {stands : Question → Reply → σ → Prop}
    {answer : Question → ExceptT Fault (StateM σ) Reply}
    {answer' : Question' → ExceptT Fault (StateM τ) Reply'}
    {state : σ} {state' : τ}
    (accompanies : Accompanies manner agree known inquiry inquiry')
    (memoizes : Memoizes stands answer)
    (answers : ∀ question question', manner.questions question question' →
      Simulates related (fun _ => manner.lenient) (answer question)
        (answer' question') manner.replies)
    (asides : ∀ question', manner.aside question' →
      ∀ state state', related state state' →
      Tallies related (fun _ => manner.lenient)
        (fun _ reply' => manner.remark reply') (.ok (), state)
        (perform (answer' question') state'))
    (states : related state state')
    (standing : ∀ pair ∈ known, stands pair.1 pair.2 state) :
    Tallies related (fun _ => manner.lenient)
      (fun value value' => ∃ later, agree later value value')
      (perform (inquiry.carryOut answer) state)
      (perform (inquiry'.carryOut answer') state') := by
  induction accompanies generalizing state state' with
  | @done known value value' agreed =>
      exact .values states ⟨known, agreed⟩
  | fault =>
      exact .faults
  | @ask known question question' resume resume' put _ inductionHypothesis =>
      rw [Inquiry.carryOut, Inquiry.carryOut, perform_bind, perform_bind]
      have tallies := answers question question' put state state' states
      have lasting : ∀ pair ∈ known,
          stands pair.1 pair.2 (perform (answer question) state).2 :=
        fun pair member => (memoizes.lasts pair.1 pair.2 question state
          (standing pair member)).1
      have given := memoizes.given question
      rcases answered : perform (answer question) state with ⟨result, middle⟩
      rw [answered] at tallies lasting
      generalize perform (answer' question') state' = performed'
        at tallies ⊢
      cases tallies with
      | @values reply reply' _ _ later agreed =>
          refine inductionHypothesis reply reply' agreed later ?_
          intro pair member
          rcases List.mem_cons.mp member with rfl | old
          · exact given reply state middle answered
          · exact lasting pair old
      | faults => exact .faults
      | excused pardoned => exact .excused pardoned
  | @again known question question' reply inquiry resume' isKnown put _
      inductionHypothesis =>
      rw [Inquiry.carryOut, perform_bind]
      have tallies := answers question question' put state state' states
      rw [memoizes.repeated question reply state
        (standing (question, reply) isKnown)] at tallies
      generalize perform (answer' question') state' = performed'
        at tallies ⊢
      cases tallies with
      | values later agreed =>
          exact inductionHypothesis _ agreed later standing
      | excused pardoned => exact .excused pardoned
  | @aside known question' inquiry resume' permitted _
      inductionHypothesis =>
      rw [Inquiry.carryOut, perform_bind]
      have tallies := asides question' permitted state state' states
      generalize perform (answer' question') state' = performed'
        at tallies ⊢
      cases tallies with
      | values later remark =>
          exact inductionHypothesis _ remark later standing
      | excused pardoned => exact .excused pardoned

end Inquiry

namespace Exhaustive

/-- The visit will be answered like this from now on: from the table, or by no
ends because it is under way. -/
def Standing
    (active : List Visit) (question : Occurrence × Offset) (reply : Ends)
    (memory : Memory) : Prop :=
  let visit := question.1.visitAt question.2
  memory.table.find? visit = some reply ∨
    memory.table.find? visit = none ∧ visit ∈ active ∧ reply = .none

/-- Visits are answered once and for all. -/
theorem memoizes_visit
    (setting : Setting) (room : Nat) (active : List Visit) :
    Inquiry.Memoizes (Standing active) fun question =>
      visit setting room active question.1 question.2 := by
  refine ⟨?_, ?_, ?_⟩
  · rintro ⟨occurrence, offset⟩ reply memory later returned
    dsimp only at returned
    cases filed : memory.table.find? (occurrence.visitAt offset) with
    | some known =>
        rw [perform_visit_of_filed filed] at returned
        cases returned
        exact Or.inl filed
    | none =>
        by_cases underWay : occurrence.visitAt offset ∈ active
        · rw [perform_visit_of_under_way filed underWay] at returned
          cases returned
          exact Or.inr ⟨filed, underWay, rfl⟩
        · exact Or.inl ((filed_of_visit returned).resolve_right underWay)
  · rintro question reply other memory standing
    refine ⟨?_, fun _ _ => trivial⟩
    rcases standing with filed | ⟨unfiled, underWay, nothing⟩
    · left
      exact (visit_keeps (Or.inl (Option.some_ne_none reply)) memory filed).1
    · right
      exact ⟨(visit_keeps (Or.inr underWay) memory unfiled).1, underWay,
        nothing⟩
  · rintro question reply memory standing
    rcases standing with filed | ⟨unfiled, underWay, rfl⟩
    · exact perform_visit_of_filed filed
    · exact perform_visit_of_under_way unfiled underWay

end Exhaustive

end AbnfMatching
