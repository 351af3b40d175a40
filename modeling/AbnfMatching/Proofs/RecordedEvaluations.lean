import AbnfMatching.Proofs.Soundness

/-!
# Recorded evaluations

A trace has one entry for each evaluation that has come to a result, made when
it has come to it, and no others. Answers that are known already have none, and
neither have evaluations that a fault has stopped, including those that it has
stopped from below. A match as a whole is a single question; what is recorded of
it follows the questions that it leads to.
-/

namespace AbnfMatching

/-! ## Greedy matching -/

namespace Greedy

/-- What carrying out an inquiry at a depth comes to, and the entries that it
makes. Each question that is answered is evaluated, one level deeper. -/
inductive Records (setting : Setting) :
    (room depth : Nat) →
      Inquiry (Element × Offset) (Option Offset) (Option Offset) →
      Except Fault (Option Offset) → List TraceEntry → Prop
  | done {room depth : Nat} (found : Option Offset) :
      Records setting room depth (.done found) (.ok found) []
  | fault {room depth : Nat} (cause : Fault) :
      Records setting room depth (.fault cause) (.error cause) []
  | tooDeep {depth : Nat} (question : Element × Offset)
      (resume : Option Offset →
        Inquiry (Element × Offset) (Option Offset) (Option Offset)) :
      Records setting 0 depth (.ask question resume) (.error (.tooDeep depth))
        []
  | stopped {room depth : Nat} {question : Element × Offset}
      {resume : Option Offset →
        Inquiry (Element × Offset) (Option Offset) (Option Offset)}
      {cause : Fault} {inner : List TraceEntry} :
      Records setting room (depth + 1) (inquiry setting question.1 question.2)
        (.error cause) inner →
      Records setting (room + 1) depth (.ask question resume) (.error cause)
        inner
  | answered {room depth : Nat} {question : Element × Offset}
      {resume : Option Offset →
        Inquiry (Element × Offset) (Option Offset) (Option Offset)}
      {reply : Option Offset} {outcome : Except Fault (Option Offset)}
      {inner rest : List TraceEntry} :
      Records setting room (depth + 1) (inquiry setting question.1 question.2)
        (.ok reply) inner →
      Records setting (room + 1) depth (resume reply) outcome rest →
      Records setting (room + 1) depth (.ask question resume) outcome
        (inner ++
          .evaluation (depth + 1) question.1 question.2
            (.ofEnd question.2 reply) :: rest)

/-- The entries of the inquiry have been added to the trace. -/
def Recorded
    (setting : Setting) (room depth : Nat)
    (inquiry : Inquiry (Element × Offset) (Option Offset) (Option Offset))
    (trace : Trace) (performed : Except Fault (Option Offset) × Trace) :
    Prop :=
  ∃ entries, Records setting room depth inquiry performed.1 entries ∧
    performed.2.toList = trace.toList ++ entries

section Records

variable {setting : Setting} {room depth : Nat} {trace : Trace}

/-- Carrying out an inquiry adds the entries of its evaluations to the trace. -/
theorem carryOut_records
    (verbose : setting.verbose = true)
    (inquiry : Inquiry (Element × Offset) (Option Offset) (Option Offset)) :
    Recorded setting room depth inquiry trace
      (perform (inquiry.carryOut fun question =>
        evaluate setting room depth question.1 question.2) trace) := by
  induction room generalizing depth inquiry trace with
  | zero =>
      cases inquiry with
      | done found => exact ⟨[], .done found, (List.append_nil _).symm⟩
      | fault cause => exact ⟨[], .fault cause, (List.append_nil _).symm⟩
      | ask question resume =>
          exact ⟨[], .tooDeep question resume, (List.append_nil _).symm⟩
  | succ room evaluations =>
      induction inquiry generalizing trace with
      | done found => exact ⟨[], .done found, (List.append_nil _).symm⟩
      | fault cause => exact ⟨[], .fault cause, (List.append_nil _).symm⟩
      | ask question resume inductionHypothesis =>
          obtain ⟨inner, records, isMiddle⟩ := @evaluations (depth + 1) trace
            (Greedy.inquiry setting question.1 question.2)
          rw [Inquiry.carryOut, perform_bind, perform_evaluate]
          generalize perform
            ((Greedy.inquiry setting question.1 question.2).carryOut
              fun question =>
                evaluate setting room (depth + 1) question.1 question.2)
            trace = performed at records isMiddle ⊢
          obtain ⟨cause | reply, middle⟩ := performed
          · exact ⟨inner, .stopped records, isMiddle⟩
          · dsimp only at records isMiddle ⊢
            rw [noted, if_pos verbose]
            obtain ⟨rest, onward, isLater⟩ := @inductionHypothesis reply
              (middle.push (.evaluation (depth + 1) question.1 question.2
                (.ofEnd question.2 reply)))
            refine ⟨_, .answered records onward, ?_⟩
            rw [isLater, Array.toList_push, isMiddle, List.append_assoc,
              List.append_assoc, List.singleton_append]

/-- A match is one question. -/
theorem run_records
    {limit : Nat} (verbose : setting.verbose = true) (element : Element)
    (offset : Offset) :
    Records setting limit 0 (.ask (element, offset) .done)
      (run setting limit element offset).1
      (run setting limit element offset).2.toList := by
  obtain ⟨entries, records, isLater⟩ :=
    @carryOut_records setting limit 0 #[] verbose (.ask (element, offset) pure)
  rw [Inquiry.carryOut_question] at records isLater
  have isTrace : (run setting limit element offset).2.toList = entries :=
    isLater
  rw [isTrace]
  exact records

end Records

end Greedy

/-! ## Exhaustive matching -/

namespace Exhaustive

/-- What carrying out an inquiry comes to, starting with a table and ending with
another one, and the entries that it makes. A question is evaluated if its visit
is neither filed nor under way, one level deeper than the visits under way. -/
inductive Records (setting : Setting) :
    (room : Nat) → (active : List Visit) → (table : Table) →
      Inquiry (Occurrence × Offset) Ends Ends → Except Fault Ends →
      List TraceEntry → (later : Table) → Prop
  | done {room : Nat} {active : List Visit} {table : Table} (found : Ends) :
      Records setting room active table (.done found) (.ok found) [] table
  | fault {room : Nat} {active : List Visit} {table : Table} (cause : Fault) :
      Records setting room active table (.fault cause) (.error cause) [] table
  | filed {room : Nat} {active : List Visit} {table later : Table}
      {question : Occurrence × Offset}
      {resume : Ends → Inquiry (Occurrence × Offset) Ends Ends}
      {known : Ends} {outcome : Except Fault Ends} {rest : List TraceEntry} :
      table.find? (question.1.visitAt question.2) = some known →
      Records setting room active table (resume known) outcome rest later →
      Records setting room active table (.ask question resume) outcome rest
        later
  | underWay {room : Nat} {active : List Visit} {table later : Table}
      {question : Occurrence × Offset}
      {resume : Ends → Inquiry (Occurrence × Offset) Ends Ends}
      {outcome : Except Fault Ends} {rest : List TraceEntry} :
      table.find? (question.1.visitAt question.2) = none →
      question.1.visitAt question.2 ∈ active →
      Records setting room active table (resume .none) outcome rest later →
      Records setting room active table (.ask question resume) outcome rest
        later
  | tooDeep {active : List Visit} {table : Table}
      {question : Occurrence × Offset}
      {resume : Ends → Inquiry (Occurrence × Offset) Ends Ends} :
      table.find? (question.1.visitAt question.2) = none →
      question.1.visitAt question.2 ∉ active →
      Records setting 0 active table (.ask question resume)
        (.error (.tooDeep active.length)) [] table
  | stopped {room : Nat} {active : List Visit} {table later : Table}
      {question : Occurrence × Offset}
      {resume : Ends → Inquiry (Occurrence × Offset) Ends Ends}
      {cause : Fault} {inner : List TraceEntry} :
      table.find? (question.1.visitAt question.2) = none →
      question.1.visitAt question.2 ∉ active →
      Records setting room (question.1.visitAt question.2 :: active) table
        (inquiry setting question.1 question.2) (.error cause) inner later →
      Records setting (room + 1) active table (.ask question resume)
        (.error cause) inner later
  | answered {room : Nat} {active : List Visit} {table middle later : Table}
      {question : Occurrence × Offset}
      {resume : Ends → Inquiry (Occurrence × Offset) Ends Ends}
      {reply : Ends} {outcome : Except Fault Ends}
      {inner rest : List TraceEntry} :
      table.find? (question.1.visitAt question.2) = none →
      question.1.visitAt question.2 ∉ active →
      Records setting room (question.1.visitAt question.2 :: active) table
        (inquiry setting question.1 question.2) (.ok reply) inner middle →
      Records setting (room + 1) active
        (middle.insert (question.1.visitAt question.2) reply) (resume reply)
        outcome rest later →
      Records setting (room + 1) active table (.ask question resume) outcome
        (inner ++
          .evaluation (active.length + 1) question.1.element question.2
            (.endsAt reply) :: rest)
        later

/-- The entries of the inquiry have been added to the trace, and the results of
its evaluations to the table. -/
def Recorded
    (setting : Setting) (room : Nat) (active : List Visit)
    (inquiry : Inquiry (Occurrence × Offset) Ends Ends) (memory : Memory)
    (performed : Except Fault Ends × Memory) : Prop :=
  ∃ entries,
    Records setting room active memory.table inquiry performed.1 entries
      performed.2.table ∧
    performed.2.trace.toList = memory.trace.toList ++ entries

section Records

variable {setting : Setting} {room : Nat} {active : List Visit}

theorem trace_completed
    {occurrence : Occurrence} {offset : Offset} {found : Ends}
    {memory : Memory} (verbose : setting.verbose = true) :
    (completed setting active occurrence offset found memory).trace =
      memory.trace.push
        (.evaluation (active.length + 1) occurrence.element offset
          (.endsAt found)) := by
  rw [completed, noted, if_pos verbose]

/-- A question whose answer is known leaves nothing behind. -/
theorem recorded_ask
    {question : Occurrence × Offset}
    {resume : Ends → Inquiry (Occurrence × Offset) Ends Ends}
    {memory : Memory}
    (onward : ∀ reply,
      Recorded setting room active (resume reply) memory
        (perform ((resume reply).carryOut fun question =>
          visit setting room active question.1 question.2) memory))
    (fresh : memory.table.find? (question.1.visitAt question.2) = none →
      question.1.visitAt question.2 ∉ active →
      Recorded setting room active (.ask question resume) memory
        (perform ((Inquiry.ask question resume).carryOut fun question =>
          visit setting room active question.1 question.2) memory)) :
    Recorded setting room active (.ask question resume) memory
      (perform ((Inquiry.ask question resume).carryOut fun question =>
        visit setting room active question.1 question.2) memory) := by
  cases filed : memory.table.find? (question.1.visitAt question.2) with
  | some known =>
      rw [Inquiry.carryOut, perform_bind, perform_visit_of_filed filed]
      obtain ⟨rest, records, isLater⟩ := onward known
      exact ⟨rest, .filed filed records, isLater⟩
  | none =>
      by_cases underWay : question.1.visitAt question.2 ∈ active
      · rw [Inquiry.carryOut, perform_bind,
          perform_visit_of_under_way filed underWay]
        obtain ⟨rest, records, isLater⟩ := onward .none
        exact ⟨rest, .underWay filed underWay records, isLater⟩
      · exact fresh filed underWay

/-- Carrying out an inquiry adds the entries of its evaluations to the trace. -/
theorem carryOut_records
    (verbose : setting.verbose = true)
    (inquiry : Inquiry (Occurrence × Offset) Ends Ends) (memory : Memory) :
    Recorded setting room active inquiry memory
      (perform (inquiry.carryOut fun question =>
        visit setting room active question.1 question.2) memory) := by
  induction room generalizing active inquiry memory with
  | zero =>
      induction inquiry generalizing memory with
      | done found => exact ⟨[], .done found, (List.append_nil _).symm⟩
      | fault cause => exact ⟨[], .fault cause, (List.append_nil _).symm⟩
      | ask question resume inductionHypothesis =>
          apply recorded_ask fun reply => inductionHypothesis reply memory
          intro unfiled notUnderWay
          rw [Inquiry.carryOut, perform_bind,
            perform_visit_zero unfiled notUnderWay]
          exact ⟨[], .tooDeep unfiled notUnderWay, (List.append_nil _).symm⟩
  | succ room evaluations =>
      induction inquiry generalizing memory with
      | done found => exact ⟨[], .done found, (List.append_nil _).symm⟩
      | fault cause => exact ⟨[], .fault cause, (List.append_nil _).symm⟩
      | ask question resume inductionHypothesis =>
          apply recorded_ask fun reply => inductionHypothesis reply memory
          intro unfiled notUnderWay
          obtain ⟨inner, records, isMiddle⟩ :=
            @evaluations (question.1.visitAt question.2 :: active)
              (Exhaustive.inquiry setting question.1 question.2) memory
          rw [Inquiry.carryOut, perform_bind,
            perform_visit_succ unfiled notUnderWay, perform_evaluate]
          generalize perform
            ((Exhaustive.inquiry setting question.1 question.2).carryOut
              fun part =>
                visit setting room (question.1.visitAt question.2 :: active)
                  part.1 part.2)
            memory = performed at records isMiddle ⊢
          obtain ⟨cause | reply, middle⟩ := performed
          · exact ⟨inner, .stopped unfiled notUnderWay records, isMiddle⟩
          · dsimp only at records isMiddle ⊢
            obtain ⟨rest, onward, isLater⟩ := inductionHypothesis reply
              (completed setting active question.1 question.2 reply middle)
            refine ⟨_, .answered unfiled notUnderWay records onward, ?_⟩
            rw [isLater, trace_completed verbose, Array.toList_push,
              isMiddle, List.append_assoc, List.append_assoc,
              List.singleton_append]

/-- A match is one question. -/
theorem run_records
    {limit : Nat} (verbose : setting.verbose = true) (occurrence : Occurrence)
    (offset : Offset) :
    Records setting limit [] .empty (.ask (occurrence, offset) .done)
      (run setting limit occurrence offset).1
      (run setting limit occurrence offset).2.trace.toList
      (run setting limit occurrence offset).2.table := by
  obtain ⟨entries, records, isLater⟩ :=
    @carryOut_records setting limit [] verbose (.ask (occurrence, offset) pure)
      ⟨.empty, #[]⟩
  rw [Inquiry.carryOut_question] at records isLater
  have isTrace :
      (run setting limit occurrence offset).2.trace.toList = entries :=
    isLater
  rw [isTrace]
  exact records

end Records

end Exhaustive

end AbnfMatching
