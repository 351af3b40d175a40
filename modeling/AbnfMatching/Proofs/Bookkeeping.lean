import AbnfMatching.Proofs.Confinement
import AbnfMatching.Proofs.Deliveries
import Mathlib.Data.Finset.Card

/-!
# Bookkeeping

The visits under way and their number can be kept in mind together with the
table and the trace, instead of being handed on from visit to visit. Then they
have to be updated at every visit: a visit that needs a fresh evaluation is
entered at its beginning and crossed out at its end, when its result is filed.

A book of such a match records what is on the desk whenever a visit is attended
to and whenever it has been answered, and which visits have been evaluated.
Keeping the book changes nothing about the match.
-/

namespace AbnfMatching

namespace Exhaustive

/-- What a match has in front of it: the results that are filed, the visits
under way, the depth as a number of its own, and the trace. -/
structure Desk where
  table : Table
  underWay : Finset Visit
  depth : Nat
  trace : Trace

/-- A visit is attended to and answered later, unless a fault comes between. The
departure tells what was on the desk at the arrival, too. -/
inductive Event where
  | arrival (visit : Visit) (desk : Desk)
  | departure (visit : Visit) (before after : Desk)

/-- What is on the desk at an event. -/
def Event.desk : Event → Desk
  | arrival _ desk => desk
  | departure _ _ after => after

/-- The desk, all events so far and all visits for which an evaluation has
begun, the latest first. -/
structure Book where
  desk : Desk
  events : List Event
  begun : List Visit

abbrev BookM := ExceptT Fault (StateM Book)

namespace Book

def empty : Book :=
  ⟨⟨.empty, ∅, 0, #[]⟩, [], []⟩

def arrive (visit : Visit) (book : Book) : Book :=
  { book with events := .arrival visit book.desk :: book.events }

/-- An evaluation begins one level deeper. -/
def start (visit : Visit) (book : Book) : Book :=
  { book with
    desk := { book.desk with
      underWay := insert visit book.desk.underWay
      depth := book.desk.depth + 1 }
    begun := visit :: book.begun }

/-- The result of an evaluation is noted and filed, and its level is left. -/
def complete
    (setting : Setting) (occurrence : Occurrence) (offset : Offset)
    (found : Ends) (book : Book) : Book :=
  let entry : TraceEntry :=
    .evaluation book.desk.depth occurrence.element offset (.endsAt found)
  { book with
    desk :=
      { table := book.desk.table.insert (occurrence.visitAt offset) found
        underWay := book.desk.underWay.erase (occurrence.visitAt offset)
        depth := book.desk.depth - 1
        trace :=
          if setting.verbose then book.desk.trace.push entry
          else book.desk.trace } }

def depart (visit : Visit) (before : Desk) (book : Book) : Book :=
  { book with events := .departure visit before book.desk :: book.events }

end Book

/-- Answer a visit in view of the desk: from the table, by no ends if it is
under way, or afresh if the depth allows it. -/
def answer
    (limit : Nat) (visit : Visit) (desk : Desk) (fresh : BookM Ends) :
    BookM Ends :=
  match desk.table.find? visit with
  | some known => pure known
  | none =>
      if visit ∈ desk.underWay then pure .none
      else if limit ≤ desk.depth then throw (.tooDeep limit)
      else fresh

/-- A fresh evaluation, given how its questions are answered. -/
def investigate
    (setting : Setting) (occurrence : Occurrence) (offset : Offset)
    (ask : Occurrence × Offset → BookM Ends) : BookM Ends := do
  modify (Book.start (occurrence.visitAt offset))
  let found ← (inquiry setting occurrence offset).carryOut ask
  modify (Book.complete setting occurrence offset found)
  pure found

/-- Visit an occurrence and keep the book. The number bounds the visits within
each other, of which there is one more than there are levels. -/
def attend (setting : Setting) (limit : Nat) :
    (visits : Nat) → Occurrence → Offset → BookM Ends
  | 0, _, _ => throw (.tooDeep limit)
  | visits + 1, occurrence, offset => do
      let current := occurrence.visitAt offset
      let before := (← get).desk
      modify (Book.arrive current)
      let ends ←
        answer limit current before <|
          investigate setting occurrence offset fun question =>
            attend setting limit visits question.1 question.2
      modify (Book.depart current before)
      pure ends

/-- Visit an occurrence under a nesting limit, starting with an empty book. -/
def keepBook
    (setting : Setting) (limit : Nat) (occurrence : Occurrence)
    (offset : Offset) : Except Fault Ends × Book :=
  perform (attend setting limit (limit + 1) occurrence offset) .empty

section Attend

variable {setting : Setting} {limit visits : Nat} {occurrence : Occurrence}
  {offset : Offset} {book : Book}

theorem perform_answer
    {visit : Visit} {desk : Desk} {fresh : BookM Ends} :
    perform (answer limit visit desk fresh) book =
      match desk.table.find? visit with
      | some known => (.ok known, book)
      | none =>
          if visit ∈ desk.underWay then (.ok .none, book)
          else if limit ≤ desk.depth then (.error (.tooDeep limit), book)
          else perform fresh book := by
  unfold answer
  cases desk.table.find? visit with
  | some known => rfl
  | none =>
      dsimp only
      by_cases underWay : visit ∈ desk.underWay
      · rw [if_pos underWay, if_pos underWay]
        rfl
      · rw [if_neg underWay, if_neg underWay]
        by_cases tooDeep : limit ≤ desk.depth
        · rw [if_pos tooDeep, if_pos tooDeep]
          rfl
        · rw [if_neg tooDeep, if_neg tooDeep]

/-- A change of the book that depends on the value. -/
theorem perform_then_modify
    {computation : BookM Ends} {change : Ends → Book → Book} :
    perform (do
        let value ← computation
        modify (change value)
        pure value) book =
      match perform computation book with
      | (.ok value, later) => (.ok value, change value later)
      | (.error cause, later) => (.error cause, later) := by
  rw [perform_bind]
  generalize perform computation book = performed
  obtain ⟨cause | value, later⟩ := performed
  · rfl
  · rfl

theorem perform_investigate {ask : Occurrence × Offset → BookM Ends} :
    perform (investigate setting occurrence offset ask) book =
      match perform ((inquiry setting occurrence offset).carryOut ask)
        (book.start (occurrence.visitAt offset)) with
      | (.ok found, later) =>
          (.ok found, later.complete setting occurrence offset found)
      | (.error cause, later) => (.error cause, later) := by
  rw [← @perform_then_modify (book.start (occurrence.visitAt offset)) _
    (Book.complete setting occurrence offset)]
  rfl

theorem perform_attend :
    perform (attend setting limit (visits + 1) occurrence offset) book =
      match perform
        (answer limit (occurrence.visitAt offset) book.desk <|
          investigate setting occurrence offset fun question =>
            attend setting limit visits question.1 question.2)
        (book.arrive (occurrence.visitAt offset)) with
      | (.ok ends, later) =>
          (.ok ends, later.depart (occurrence.visitAt offset) book.desk)
      | (.error cause, later) => (.error cause, later) := by
  rw [← @perform_then_modify (book.arrive (occurrence.visitAt offset)) _
    fun _ => Book.depart (occurrence.visitAt offset) book.desk]
  rfl

/-- Whatever follows in each of the ways in which a visit is attended to follows
from attending to it. -/
theorem delivers_attend
    {returned : Ends → Book → Prop} {stopped : Book → Prop}
    (known : ∀ ends,
      book.desk.table.find? (occurrence.visitAt offset) = some ends →
      returned ends
        ((book.arrive (occurrence.visitAt offset)).depart
          (occurrence.visitAt offset) book.desk))
    (again : occurrence.visitAt offset ∈ book.desk.underWay →
      returned .none
        ((book.arrive (occurrence.visitAt offset)).depart
          (occurrence.visitAt offset) book.desk))
    (tooDeep : stopped (book.arrive (occurrence.visitAt offset)))
    (fresh : book.desk.table.find? (occurrence.visitAt offset) = none →
      occurrence.visitAt offset ∉ book.desk.underWay →
      Delivers
        ((inquiry setting occurrence offset).carryOut fun question =>
          attend setting limit visits question.1 question.2)
        ((book.arrive (occurrence.visitAt offset)).start
          (occurrence.visitAt offset))
        (fun found later => returned found
          ((later.complete setting occurrence offset found).depart
            (occurrence.visitAt offset) book.desk))
        stopped) :
    Delivers (attend setting limit (visits + 1) occurrence offset) book
      returned stopped := by
  unfold Delivers
  rw [perform_attend, perform_answer]
  cases filed : book.desk.table.find? (occurrence.visitAt offset) with
  | some ends =>
      exact known ends filed
  | none =>
      dsimp only
      by_cases underWay : occurrence.visitAt offset ∈ book.desk.underWay
      · rw [if_pos underWay]
        exact again underWay
      · rw [if_neg underWay]
        by_cases isTooDeep : limit ≤ book.desk.depth
        · rw [if_pos isTooDeep]
          exact tooDeep
        · rw [if_neg isTooDeep, perform_investigate]
          have delivers := fresh filed underWay
          unfold Delivers at delivers
          generalize perform
            ((inquiry setting occurrence offset).carryOut fun question =>
              attend setting limit visits question.1 question.2)
            ((book.arrive (occurrence.visitAt offset)).start
              (occurrence.visitAt offset)) = performed at delivers ⊢
          obtain ⟨cause | found, later⟩ := performed
          · exact delivers
          · exact delivers

end Attend

/-! ## What is restored -/

/-- What has been entered after the arrival of a visit is crossed out again, and
the visit is filed, unless it was under way already. -/
structure Restores (visit : Visit) (before after : Desk) : Prop where
  underWay : after.underWay = before.underWay
  depth : after.depth = before.depth
  answered : (after.table.find? visit).isSome ∨ visit ∈ before.underWay

/-- The later book has more events, and the same visits are under way. -/
structure Book.Resumes (book later : Book) : Prop where
  underWay : later.desk.underWay = book.desk.underWay
  depth : later.desk.depth = book.desk.depth
  events : book.events ⊆ later.events

section Resumes

variable {book later latest : Book}

theorem Book.resumes_refl : book.Resumes book :=
  ⟨rfl, rfl, List.Subset.refl _⟩

theorem Book.Resumes.trans
    (resumes : book.Resumes later) (resumesToo : later.Resumes latest) :
    book.Resumes latest :=
  ⟨resumesToo.underWay.trans resumes.underWay,
    resumesToo.depth.trans resumes.depth,
    List.Subset.trans resumes.events resumesToo.events⟩

/-- If the book resumes where an evaluation has begun, then the evaluation
leaves the desk as it was before. -/
theorem restores_of_resumes
    {setting : Setting} {occurrence : Occurrence} {offset : Offset}
    {found : Ends}
    (notUnderWay : occurrence.visitAt offset ∉ book.desk.underWay)
    (resumes :
      ((book.arrive (occurrence.visitAt offset)).start
        (occurrence.visitAt offset)).Resumes later) :
    Restores (occurrence.visitAt offset) book.desk
      (later.complete setting occurrence offset found).desk where
  underWay := by
    change later.desk.underWay.erase _ = book.desk.underWay
    rw [resumes.underWay]
    exact Finset.erase_insert notUnderWay
  depth := by
    change later.desk.depth - 1 = book.desk.depth
    rw [resumes.depth]
    rfl
  answered := by
    left
    change ((later.desk.table.insert _ found).find? _).isSome
    rw [Table.find?_insert, if_pos rfl]
    rfl

/-- A visit that is answered at once leaves the desk alone. -/
theorem resumes_passed {visit : Visit} :
    book.Resumes ((book.arrive visit).depart visit book.desk) := by
  refine ⟨rfl, rfl, ?_⟩
  intro event member
  exact List.mem_cons_of_mem _ (List.mem_cons_of_mem _ member)

theorem resumes_evaluated
    {setting : Setting} {occurrence : Occurrence} {offset : Offset}
    {found : Ends}
    (notUnderWay : occurrence.visitAt offset ∉ book.desk.underWay)
    (resumes :
      ((book.arrive (occurrence.visitAt offset)).start
        (occurrence.visitAt offset)).Resumes later) :
    book.Resumes ((later.complete setting occurrence offset found).depart
      (occurrence.visitAt offset) book.desk) := by
  have restores : Restores (occurrence.visitAt offset) book.desk
      (later.complete setting occurrence offset found).desk :=
    restores_of_resumes notUnderWay resumes
  refine ⟨restores.underWay, restores.depth, ?_⟩
  intro event member
  exact List.mem_cons_of_mem _
    (resumes.events (List.mem_cons_of_mem _ member))

/-- If the book resumes where it was after every answer, then it does so after
an inquiry. -/
theorem carryOut_resumes
    {answer : Occurrence × Offset → BookM Ends}
    {inquiry : Inquiry (Occurrence × Offset) Ends Ends}
    (answers : ∀ question book,
      Delivers (answer question) book (fun _ later => book.Resumes later)
        (fun _ => True)) :
    Delivers (inquiry.carryOut answer) book
      (fun _ later => book.Resumes later) (fun _ => True) := by
  apply Delivers.mono (Inquiry.carryOut_delivers book.Resumes (fun _ => True)
    inquiry.meets_trivial ?_ (fun _ _ => trivial) Book.resumes_refl)
  · exact fun _ _ carried => carried.2
  · exact fun _ _ => trivial
  · intro question _ middle resumes
    apply (answers question middle).mono
    · exact fun _ _ resumesToo => ⟨trivial, resumes.trans resumesToo⟩
    · exact fun _ _ => trivial

/-- After a visit has been attended to, the book resumes where it was. -/
theorem attend_resumes
    (setting : Setting) (limit visits : Nat) (occurrence : Occurrence)
    (offset : Offset) (book : Book) :
    Delivers (attend setting limit visits occurrence offset) book
      (fun _ later => book.Resumes later) (fun _ => True) := by
  induction visits generalizing occurrence offset book with
  | zero =>
      exact delivers_throw trivial
  | succ visits inductionHypothesis =>
      apply delivers_attend
      · exact fun _ _ => resumes_passed
      · exact fun _ => resumes_passed
      · trivial
      · intro _ notUnderWay
        apply Delivers.mono (carryOut_resumes fun question book =>
          inductionHypothesis question.1 question.2 book)
        · exact fun _ _ resumes => resumes_evaluated notUnderWay resumes
        · exact fun _ _ => trivial

end Resumes

/-! ## The same match -/

/-- What a match keeps in mind without the book. -/
def Book.memory (book : Book) : Memory :=
  ⟨book.desk.table, book.desk.trace⟩

/-- The visits under way are those of the chain. -/
structure Book.Follows (active : List Visit) (book : Book) : Prop where
  nodup : active.Nodup
  underWay : book.desk.underWay = active.toFinset
  depth : book.desk.depth = active.length

/-- Without the book, the computation comes to the same. -/
def Transcribes
    (kept : BookM Ends) (plain : ExhaustiveM Ends) (book : Book) : Prop :=
  perform plain book.memory =
    ((perform kept book).1, (perform kept book).2.memory)

section Transcribes

variable {setting : Setting} {limit visits room : Nat} {active : List Visit}
  {occurrence : Occurrence} {offset : Offset} {book later : Book}

theorem Book.Follows.resumes
    (follows : book.Follows active) (resumes : book.Resumes later) :
    later.Follows active :=
  ⟨follows.nodup, resumes.underWay.trans follows.underWay,
    resumes.depth.trans follows.depth⟩

theorem Book.Follows.mem_iff
    {visit : Visit} (follows : book.Follows active) :
    visit ∈ book.desk.underWay ↔ visit ∈ active := by
  rw [follows.underWay, List.mem_toFinset]

theorem Book.Follows.start
    {visit : Visit} (follows : book.Follows active)
    (notUnderWay : visit ∉ active) :
    ((book.arrive visit).start visit).Follows (visit :: active) where
  nodup := List.nodup_cons.mpr ⟨notUnderWay, follows.nodup⟩
  underWay := by
    rw [List.toFinset_cons, ← follows.underWay]
    rfl
  depth := by
    rw [List.length_cons, ← follows.depth]
    rfl

theorem carryOut_transcribes
    {inquiry : Inquiry (Occurrence × Offset) Ends Ends}
    (answers : ∀ (question : Occurrence × Offset) (book : Book),
      book.Follows active →
      Transcribes (attend setting limit visits question.1 question.2)
        (visit setting room active question.1 question.2) book)
    (follows : book.Follows active) :
    Transcribes
      (inquiry.carryOut fun question =>
        attend setting limit visits question.1 question.2)
      (inquiry.carryOut fun question =>
        visit setting room active question.1 question.2)
      book := by
  induction inquiry generalizing book with
  | done ends => rfl
  | fault cause => rfl
  | ask question resume inductionHypothesis =>
      have same := answers question book follows
      have keeps :=
        attend_resumes setting limit visits question.1 question.2 book
      unfold Transcribes at same ⊢
      unfold Delivers at keeps
      rw [Inquiry.carryOut, Inquiry.carryOut, perform_bind, perform_bind,
        same]
      generalize perform (attend setting limit visits question.1 question.2)
        book = performed at keeps ⊢
      obtain ⟨cause | reply, later⟩ := performed
      · rfl
      · exact inductionHypothesis reply (follows.resumes keeps)

/-- What is noted and filed is the same. -/
theorem memory_complete
    {found : Ends}
    (follows : book.Follows (occurrence.visitAt offset :: active)) :
    (book.complete setting occurrence offset found).memory =
      completed setting active occurrence offset found book.memory := by
  have depth : book.desk.depth = active.length + 1 := follows.depth
  unfold Book.complete completed noted
  dsimp only
  rw [depth]
  by_cases verbose : setting.verbose = true
  · rw [if_pos verbose, if_pos verbose]
    rfl
  · rw [if_neg verbose, if_neg verbose]
    rfl

theorem investigate_transcribes
    (follows : (book.start (occurrence.visitAt offset)).Follows
      (occurrence.visitAt offset :: active))
    (inquired : Transcribes
      ((inquiry setting occurrence offset).carryOut fun question =>
        attend setting limit visits question.1 question.2)
      ((inquiry setting occurrence offset).carryOut fun question =>
        visit setting room (occurrence.visitAt offset :: active)
          question.1 question.2)
      (book.start (occurrence.visitAt offset))) :
    Transcribes
      (investigate setting occurrence offset fun question =>
        attend setting limit visits question.1 question.2)
      (evaluate setting room active occurrence offset) book := by
  have keeps := @carryOut_resumes (book.start (occurrence.visitAt offset)) _
    (inquiry setting occurrence offset) fun question =>
      attend_resumes setting limit visits question.1 question.2
  have sameMemory : (book.start (occurrence.visitAt offset)).memory =
      book.memory :=
    rfl
  unfold Transcribes at inquired ⊢
  unfold Delivers at keeps
  rw [sameMemory] at inquired
  rw [perform_investigate, perform_evaluate, inquired]
  generalize perform
    ((inquiry setting occurrence offset).carryOut fun question =>
      attend setting limit visits question.1 question.2)
    (book.start (occurrence.visitAt offset)) = performed at keeps ⊢
  obtain ⟨cause | found, later⟩ := performed
  · rfl
  · exact congrArg (Prod.mk _) (memory_complete (follows.resumes keeps)).symm

/-- With the book, a visit is answered as without it if it is evaluated in the
same way, or if the limit has been reached. -/
theorem attend_transcribes_consult
    {plain : ExhaustiveM Ends}
    (follows : book.Follows active)
    (limited : limit ≤ active.length → plain = throw (.tooDeep limit))
    (evaluated : occurrence.visitAt offset ∉ active →
      active.length < limit →
      Transcribes
        (investigate setting occurrence offset fun question =>
          attend setting limit visits question.1 question.2)
        plain (book.arrive (occurrence.visitAt offset))) :
    Transcribes (attend setting limit (visits + 1) occurrence offset)
      (consult active (occurrence.visitAt offset) plain) book := by
  unfold Transcribes
  rw [perform_attend, perform_answer, perform_consult]
  have sameTable : book.memory.table = book.desk.table := rfl
  rw [sameTable]
  cases book.desk.table.find? (occurrence.visitAt offset) with
  | some known => rfl
  | none =>
      dsimp only
      rw [follows.depth]
      by_cases underWay : occurrence.visitAt offset ∈ active
      · rw [if_pos underWay, if_pos (follows.mem_iff.mpr underWay)]
        rfl
      · have notEntered :
            occurrence.visitAt offset ∉ book.desk.underWay :=
          fun entered => underWay (follows.mem_iff.mp entered)
        rw [if_neg underWay, if_neg notEntered]
        by_cases tooDeep : limit ≤ active.length
        · rw [if_pos tooDeep, limited tooDeep]
          rfl
        · rw [if_neg tooDeep]
          have same := evaluated underWay (Nat.lt_of_not_le tooDeep)
          unfold Transcribes at same
          change perform plain book.memory = _ at same
          rw [same]
          generalize perform
            (investigate setting occurrence offset fun question =>
              attend setting limit visits question.1 question.2)
            (book.arrive (occurrence.visitAt offset)) = performed
          obtain ⟨cause | ends, later⟩ := performed
          · rfl
          · rfl

/-- The match is the same with and without the book. -/
theorem attend_transcribes
    (levels : room + active.length = limit) (follows : book.Follows active) :
    Transcribes (attend setting limit (room + 1) occurrence offset)
      (visit setting room active occurrence offset) book := by
  induction room generalizing active occurrence offset book with
  | zero =>
      rw [visit]
      rw [Nat.zero_add] at levels
      apply attend_transcribes_consult follows
      · intro _
        rw [levels]
      · intro _ below
        omega
  | succ room inductionHypothesis =>
      rw [visit_succ]
      apply attend_transcribes_consult follows
      · intro tooDeep
        omega
      · intro notUnderWay _
        have started := follows.start notUnderWay
        apply investigate_transcribes started
        apply carryOut_transcribes _ started
        intro question state stateFollows
        apply inductionHypothesis _ stateFollows
        rw [List.length_cons]
        omega

/-- A match with a book is the match without it. -/
theorem run_eq_keepBook :
    run setting limit occurrence offset =
      ((keepBook setting limit occurrence offset).1,
        (keepBook setting limit occurrence offset).2.memory) := by
  have follows : Book.empty.Follows [] :=
    ⟨List.nodup_nil, rfl, rfl⟩
  exact attend_transcribes (Nat.add_zero limit) follows

end Transcribes

end Exhaustive

end AbnfMatching
