import AbnfMatching.Proofs.Places
import AbnfMatching.Proofs.Replies

/-!
# Visits

A visit is answered from the table, by no ends at all, or by a fresh evaluation
whose result is filed. Whatever is good about the results of fresh evaluations
is therefore good about every answer, as long as results are filed where they
belong.
-/

namespace AbnfMatching.Exhaustive

/-- The memory after an evaluation of which a trace entry was made. -/
def noted (setting : Setting) (entry : TraceEntry) (memory : Memory) :
    Memory :=
  if setting.verbose then { memory with trace := memory.trace.push entry }
  else memory

@[simp]
theorem table_noted
    {setting : Setting} {entry : TraceEntry} {memory : Memory} :
    (noted setting entry memory).table = memory.table := by
  unfold noted
  split <;> rfl

theorem perform_note
    {setting : Setting} {entry : TraceEntry} {memory : Memory} :
    perform (note setting entry) memory =
      (.ok (), noted setting entry memory) := by
  unfold note noted
  split <;> rfl

theorem perform_file {visit : Visit} {ends : Ends} {memory : Memory} :
    perform (file visit ends) memory =
      (.ok (), { memory with table := memory.table.insert visit ends }) :=
  rfl

/-- A visit is answered from the table if it is filed there, by no ends if it
is under way, and by a fresh evaluation otherwise. -/
theorem perform_consult
    {active : List Visit} {visit : Visit} {fresh : ExhaustiveM Ends}
    {memory : Memory} :
    perform (consult active visit fresh) memory =
      match memory.table.find? visit with
      | some known => (.ok known, memory)
      | none =>
          if visit ∈ active then (.ok .none, memory)
          else perform fresh memory := by
  unfold consult
  rw [perform_bind]
  change perform
    (match memory.table.find? visit with
      | some known => pure known
      | none => if visit ∈ active then pure .none else fresh) memory = _
  cases memory.table.find? visit with
  | some known => rfl
  | none => by_cases underWay : visit ∈ active <;> simp [underWay]

/-- A fresh evaluation with at least one level to spare. -/
def evaluate (setting : Setting) (room : Nat) (active : List Visit)
    (occurrence : Occurrence) (offset : Offset) : ExhaustiveM Ends := do
  let found ←
    (inquiry setting occurrence offset).carryOut fun question =>
      visit setting room (occurrence.visitAt offset :: active)
        question.1 question.2
  note setting
    (.evaluation (active.length + 1) occurrence.element offset (.endsAt found))
  file (occurrence.visitAt offset) found
  pure found

theorem visit_succ
    {setting : Setting} {room : Nat} {active : List Visit}
    {occurrence : Occurrence} {offset : Offset} :
    visit setting (room + 1) active occurrence offset =
      consult active (occurrence.visitAt offset)
        (evaluate setting room active occurrence offset) := by
  rw [visit, evaluate, carryOut_inquiry]

/-! ## The ways of answering a visit -/

theorem upholds_consult
    {invariant : Memory → Prop} {goal : Ends → Prop}
    {active : List Visit} {visit : Visit} {fresh : ExhaustiveM Ends}
    (filed : ∀ memory ends, invariant memory →
      memory.table.find? visit = some ends → goal ends)
    (again : visit ∈ active → goal .none)
    (evaluated : visit ∉ active → Upholds invariant fresh goal) :
    Upholds invariant (consult active visit fresh) goal := by
  intro memory kept
  rw [perform_consult]
  split
  · next known found =>
      refine ⟨kept, ?_⟩
      intro ends returned
      cases returned
      exact filed memory known kept found
  · split
    · next underWay =>
        refine ⟨kept, ?_⟩
        intro ends returned
        cases returned
        exact again underWay
    · next notUnderWay =>
        exact evaluated notUnderWay memory kept

/-- The memory after a fresh evaluation. -/
def completed (setting : Setting) (active : List Visit)
    (occurrence : Occurrence) (offset : Offset) (found : Ends)
    (memory : Memory) : Memory :=
  let entry : TraceEntry :=
    .evaluation (active.length + 1) occurrence.element offset (.endsAt found)
  { noted setting entry memory with
    table := memory.table.insert (occurrence.visitAt offset) found }

@[simp]
theorem table_completed
    {setting : Setting} {active : List Visit} {occurrence : Occurrence}
    {offset : Offset} {found : Ends} {memory : Memory} :
    (completed setting active occurrence offset found memory).table =
      memory.table.insert (occurrence.visitAt offset) found :=
  rfl

section Answers

variable {setting : Setting} {room : Nat} {active : List Visit}
  {occurrence : Occurrence} {offset : Offset} {memory : Memory}

/-- What the inquiry finds is noted, filed and returned. -/
theorem perform_evaluate :
    perform (evaluate setting room active occurrence offset) memory =
      match perform
        ((inquiry setting occurrence offset).carryOut fun question =>
          visit setting room (occurrence.visitAt offset :: active)
            question.1 question.2) memory with
      | (.ok found, later) =>
          (.ok found,
            completed setting active occurrence offset found later)
      | (.error cause, later) => (.error cause, later) := by
  rw [evaluate, perform_bind]
  generalize perform
    ((inquiry setting occurrence offset).carryOut fun question =>
      visit setting room (occurrence.visitAt offset :: active)
        question.1 question.2) memory = performed
  obtain ⟨cause | found, later⟩ := performed
  · rfl
  · dsimp only
    rw [perform_bind, perform_note]
    dsimp only
    rw [perform_bind, perform_file, table_noted]
    rfl

theorem perform_visit_of_filed
    {ends : Ends}
    (filed : memory.table.find? (occurrence.visitAt offset) = some ends) :
    perform (visit setting room active occurrence offset) memory =
      (.ok ends, memory) := by
  cases room with
  | zero => rw [visit, perform_consult, filed]
  | succ room => rw [visit_succ, perform_consult, filed]

theorem perform_visit_of_under_way
    (unfiled : memory.table.find? (occurrence.visitAt offset) = none)
    (underWay : occurrence.visitAt offset ∈ active) :
    perform (visit setting room active occurrence offset) memory =
      (.ok .none, memory) := by
  cases room with
  | zero =>
      rw [visit, perform_consult, unfiled]
      exact if_pos underWay
  | succ room =>
      rw [visit_succ, perform_consult, unfiled]
      exact if_pos underWay

theorem perform_visit_zero
    (unfiled : memory.table.find? (occurrence.visitAt offset) = none)
    (notUnderWay : occurrence.visitAt offset ∉ active) :
    perform (visit setting 0 active occurrence offset) memory =
      (.error (.tooDeep active.length), memory) := by
  rw [visit, perform_consult, unfiled]
  exact if_neg notUnderWay

theorem perform_visit_succ
    (unfiled : memory.table.find? (occurrence.visitAt offset) = none)
    (notUnderWay : occurrence.visitAt offset ∉ active) :
    perform (visit setting (room + 1) active occurrence offset) memory =
      perform (evaluate setting room active occurrence offset) memory := by
  rw [visit_succ, perform_consult, unfiled]
  exact if_neg notUnderWay

/-- Whatever is answered is filed, unless the visit is under way. -/
theorem filed_of_visit
    {later : Memory} {ends : Ends}
    (returned : perform (visit setting room active occurrence offset) memory =
      (.ok ends, later)) :
    later.table.find? (occurrence.visitAt offset) = some ends ∨
      occurrence.visitAt offset ∈ active := by
  by_cases underWay : occurrence.visitAt offset ∈ active
  · exact Or.inr underWay
  · left
    cases filed : memory.table.find? (occurrence.visitAt offset) with
    | some known =>
        rw [perform_visit_of_filed filed] at returned
        cases returned
        exact filed
    | none =>
        cases room with
        | zero =>
            rw [perform_visit_zero filed underWay] at returned
            cases returned
        | succ room =>
            rw [perform_visit_succ filed underWay] at returned
            rw [perform_evaluate] at returned
            split at returned
            · cases returned
              rw [table_completed, Table.find?_insert, if_pos rfl]
            · cases returned

/-- An entry stays as it is, and no entry is made for a visit under way. -/
theorem visit_keeps
    {entry : Option Ends} {kept : Visit}
    (settled : entry ≠ none ∨ kept ∈ active) :
    Upholds (fun memory => memory.table.find? kept = entry)
      (visit setting room active occurrence offset) fun _ => True := by
  induction room generalizing active occurrence offset with
  | zero =>
      rw [visit]
      exact upholds_consult (fun _ _ _ _ => trivial) (fun _ => trivial)
        fun _ => upholds_throw
  | succ room inductionHypothesis =>
      intro memory isEntry
      refine ⟨?_, fun _ _ => trivial⟩
      cases filed : memory.table.find? (occurrence.visitAt offset) with
      | some known =>
          rw [perform_visit_of_filed filed]
          exact isEntry
      | none =>
          by_cases underWay : occurrence.visitAt offset ∈ active
          · rw [perform_visit_of_under_way filed underWay]
            exact isEntry
          · have different : occurrence.visitAt offset ≠ kept := by
              intro same
              subst same
              rcases settled with isFiled | isUnderWay
              · exact isFiled (isEntry.symm.trans filed)
              · exact underWay isUnderWay
            have below : ∀ question : Occurrence × Offset, True →
                Upholds (fun memory => memory.table.find? kept = entry)
                  (visit setting room (occurrence.visitAt offset :: active)
                    question.1 question.2) fun _ => True :=
              fun question _ => inductionHypothesis
                (settled.imp_right (List.mem_cons_of_mem _))
            have inquired := Inquiry.carryOut_upholds
              (inquiry setting occurrence offset).meets_trivial below
              memory isEntry
            rw [perform_visit_succ filed underWay, perform_evaluate]
            split
            · next found later performed =>
                rw [performed] at inquired
                rw [table_completed, Table.find?_insert, if_neg different]
                exact inquired.1
            · next cause later performed =>
                rw [performed] at inquired
                exact inquired.1

end Answers

/-! ## Good results -/

/-- All results in the table are good ones for the occurrences and offsets
under whose visits they are filed. -/
def FiledWell
    (grammar : Option Grammar) (subject : Element)
    (good : Occurrence → Offset → Ends → Prop) (memory : Memory) : Prop :=
  ∀ occurrence offset ends, occurrence.Placed grammar subject →
    memory.table.find? (occurrence.visitAt offset) = some ends →
    good occurrence offset ends

theorem filedWell_empty
    {grammar : Option Grammar} {subject : Element}
    {good : Occurrence → Offset → Ends → Prop} {trace : Trace} :
    FiledWell grammar subject good ⟨.empty, trace⟩ := by
  intro occurrence offset ends _ filed
  rw [Table.find?_empty] at filed
  cases filed

/-- A good result stays the only one at its place. -/
theorem FiledWell.insert
    {grammar : Option Grammar} {subject : Element}
    {good : Occurrence → Offset → Ends → Prop} {memory : Memory}
    {occurrence : Occurrence} {offset : Offset} {ends : Ends} {trace : Trace}
    (filedWell : FiledWell grammar subject good memory)
    (placed : occurrence.Placed grammar subject)
    (isGood : good occurrence offset ends) :
    FiledWell grammar subject good
      ⟨memory.table.insert (occurrence.visitAt offset) ends, trace⟩ := by
  intro other start found otherPlaced filed
  rw [Table.find?_insert] at filed
  split at filed
  · next same =>
      obtain ⟨rfl, rfl⟩ := placed.unique_of_visitAt otherPlaced same
      cases filed
      exact isGood
  · exact filedWell other start found otherPlaced filed

section Upholds

variable {setting : Setting} {subject : Element}
  {good : Occurrence → Offset → Ends → Prop}
  {ready : List Visit → Occurrence → Offset → Prop}

/-- A good result of the inquiry is noted, filed and returned. -/
theorem upholds_evaluate
    {room : Nat} {active : List Visit} {occurrence : Occurrence}
    {offset : Offset}
    (placed : occurrence.Placed setting.grammar subject)
    (inquired : Upholds (FiledWell setting.grammar subject good)
      ((inquiry setting occurrence offset).carryOut fun question =>
        visit setting room (occurrence.visitAt offset :: active)
          question.1 question.2)
      (good occurrence offset)) :
    Upholds (FiledWell setting.grammar subject good)
      (evaluate setting room active occurrence offset)
      (good occurrence offset) := by
  intro memory filedWell
  obtain ⟨filedLater, reached⟩ := inquired memory filedWell
  rw [perform_evaluate]
  generalize perform
    ((inquiry setting occurrence offset).carryOut fun question =>
      visit setting room (occurrence.visitAt offset :: active)
        question.1 question.2) memory = performed at filedLater reached ⊢
  obtain ⟨cause | found, later⟩ := performed
  · exact ⟨filedLater, fun _ returned => nomatch returned⟩
  · have isGood := reached found rfl
    refine ⟨filedLater.insert placed isGood, ?_⟩
    intro ends returned
    cases returned
    exact isGood

/-- Visits that are ready to be made have good results if a visit that is under
way is well answered by no ends, and if good replies to the questions of an
evaluation, all of them ready in their turn, lead to a good result. -/
theorem visit_upholds
    (placed : ∀ active occurrence offset,
      ready active occurrence offset →
      occurrence.Placed setting.grammar subject)
    (again : ∀ active occurrence offset,
      ready active occurrence offset →
      occurrence.visitAt offset ∈ active →
      good occurrence offset .none)
    (fresh : ∀ active occurrence offset,
      ready active occurrence offset →
      occurrence.visitAt offset ∉ active →
      (inquiry setting occurrence offset).Meets
        (fun question =>
          ready (occurrence.visitAt offset :: active) question.1 question.2)
        (fun question => good question.1 question.2)
        (good occurrence offset))
    {room : Nat} {active : List Visit} {occurrence : Occurrence}
    {offset : Offset} (isReady : ready active occurrence offset) :
    Upholds (FiledWell setting.grammar subject good)
      (visit setting room active occurrence offset)
      (good occurrence offset) := by
  have isPlaced := placed active occurrence offset isReady
  have ofFiled : ∀ memory ends,
      FiledWell setting.grammar subject good memory →
      memory.table.find? (occurrence.visitAt offset) = some ends →
      good occurrence offset ends :=
    fun _ ends filedWell => filedWell occurrence offset ends isPlaced
  induction room generalizing active occurrence offset with
  | zero =>
      rw [visit]
      exact upholds_consult ofFiled (again _ _ _ isReady)
        fun _ => upholds_throw
  | succ room inductionHypothesis =>
      rw [visit_succ]
      refine upholds_consult ofFiled (again _ _ _ isReady) ?_
      intro notUnderWay
      refine upholds_evaluate isPlaced ?_
      refine Inquiry.carryOut_upholds (fresh _ _ _ isReady notUnderWay) ?_
      intro question questionReady
      have questionPlaced := placed _ _ _ questionReady
      exact inductionHypothesis questionReady questionPlaced
        fun _ ends filedWell => filedWell _ _ ends questionPlaced

end Upholds

end AbnfMatching.Exhaustive
