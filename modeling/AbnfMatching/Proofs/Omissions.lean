import AbnfMatching.Proofs.Search
import AbnfMatching.Proofs.Simulation

/-!
# What end sets leave out

The answer to a visit that is under way leaves out the ends of that visit, and
so may every end set that is computed with its help. An account of an end set
names the visits whose ends it may lack; a visit is crossed out as soon as its
own evaluation is complete. Keeping accounts does not change what is found.

An end set that is taken from the table after a visit it leaves out has been
completed is out of date: the ends of that visit are never added to it. Apart
from the visits named in its account, an end set lacks nothing that a search
without a table finds.
-/

namespace AbnfMatching

/-- An end set and the visits whose ends it may lack. -/
structure Account where
  ends : Ends
  omitted : List Visit

/-- A table of results in which the end sets come with their accounts. -/
abbrev Ledger :=
  Visit → Option Account

/-- A computation that keeps a ledger. -/
abbrev LedgerM := ExceptT Fault (StateM Ledger)

/-- Carry out an inquiry with accounts for answers. What one of them leaves out
may be lacking from the result. -/
def Inquiry.gather {Question σ : Type}
    (answer : Question → ExceptT Fault (StateM σ) Account) :
    Inquiry Question Ends Ends → ExceptT Fault (StateM σ) Account
  | done ends => pure ⟨ends, []⟩
  | fault cause => throw cause
  | ask question resume => do
      let reply ← answer question
      let rest ← gather answer (resume reply.ends)
      pure ⟨rest.ends, reply.omitted ++ rest.omitted⟩

section Gather

variable {Question σ τ : Type}

theorem Inquiry.gather_simulates
    {related : σ → τ → Prop} {excused : Fault → Prop}
    {inquiry : Inquiry Question Ends Ends}
    {left : Question → ExceptT Fault (StateM σ) Account}
    {right : Question → ExceptT Fault (StateM τ) Ends}
    (answers : ∀ question,
      Simulates related excused (left question) (right question)
        fun account ends => account.ends = ends) :
    Simulates related excused (inquiry.gather left) (inquiry.carryOut right)
      fun account ends => account.ends = ends := by
  induction inquiry with
  | done ends =>
      exact simulates_pure rfl
  | fault cause =>
      exact simulates_throw
  | ask question resume inductionHypothesis =>
      refine simulates_bind (answers question) ?_
      intro reply ends same
      subst same
      exact simulates_bind_pure (inductionHypothesis reply.ends)
        fun _ _ agreed => agreed

/-- The ends that are gathered are yielded by replies that leave out no more
than the result does. -/
theorem Inquiry.gather_upholds
    {invariant : σ → Prop} {allowed : Question → Prop}
    {acceptable : Question → Ends → Prop} {goal : Ends → Prop}
    (warranted : Question → Account → Prop)
    {answer : Question → ExceptT Fault (StateM σ) Account}
    {inquiry : Inquiry Question Ends Ends}
    (meets : inquiry.Meets allowed acceptable goal)
    (sound : ∀ question account,
      warranted question account → acceptable question account.ends)
    (answers : ∀ question, allowed question →
      Upholds invariant (answer question) (warranted question)) :
    Upholds invariant (inquiry.gather answer) fun account =>
      inquiry.Yields
        (fun question ends => ∃ omitted, omitted ⊆ account.omitted ∧
          warranted question ⟨ends, omitted⟩)
        account.ends := by
  induction inquiry with
  | done ends =>
      exact upholds_pure (.done ends)
  | fault cause =>
      exact upholds_throw
  | ask question resume inductionHypothesis =>
      obtain ⟨permitted, continues⟩ := meets
      refine upholds_bind (answers question permitted) ?_
      intro reply isWarranted
      refine upholds_bind
        (inductionHypothesis reply.ends
          (continues reply.ends (sound question reply isWarranted))) ?_
      intro rest yields
      refine upholds_pure (.ask ⟨reply.omitted, ?_, isWarranted⟩ ?_)
      · exact List.subset_append_left reply.omitted rest.omitted
      · refine yields.mono ?_
        intro part ends given
        obtain ⟨omitted, subset, partWarranted⟩ := given
        exact ⟨omitted,
          List.subset_append_of_subset_right reply.omitted subset,
          partWarranted⟩

end Gather

namespace Exhaustive

/-- Answer a visit from the ledger, by the account of having left it out, or
afresh. -/
def examine
    (active : List Visit) (visit : Visit) (fresh : LedgerM Account) :
    LedgerM Account := do
  match (← get) visit with
  | some known => pure known
  | none => if visit ∈ active then pure ⟨.none, [visit]⟩ else fresh

/-- Enter an account in the ledger. -/
def enter (visit : Visit) (account : Account) : LedgerM Unit :=
  modify fun ledger other =>
    if visit = other then some account else ledger other

/-- Visit an occurrence and give account of its ends. -/
def account (setting : Setting) :
    (room : Nat) → (active : List Visit) → Occurrence → Offset →
      LedgerM Account
  | 0, active, occurrence, offset =>
      examine active (occurrence.visitAt offset)
        (throw (.tooDeep active.length))
  | room + 1, active, occurrence, offset =>
      let current := occurrence.visitAt offset
      examine active current do
        let found ←
          (inquiry setting occurrence offset).gather fun question =>
            account setting room (current :: active) question.1 question.2
        let complete : Account :=
          ⟨found.ends, found.omitted.filter (· ≠ current)⟩
        enter current complete
        pure complete

theorem perform_examine
    {active : List Visit} {visit : Visit} {fresh : LedgerM Account}
    {ledger : Ledger} :
    perform (examine active visit fresh) ledger =
      match ledger visit with
      | some known => (.ok known, ledger)
      | none =>
          if visit ∈ active then (.ok ⟨.none, [visit]⟩, ledger)
          else perform fresh ledger := by
  unfold examine
  rw [perform_bind]
  change perform
    (match ledger visit with
      | some known => pure known
      | none => if visit ∈ active then pure ⟨.none, [visit]⟩ else fresh)
    ledger = _
  cases ledger visit with
  | some known => rfl
  | none => by_cases underWay : visit ∈ active <;> simp [underWay]

theorem perform_enter
    {visit : Visit} {account : Account} {ledger : Ledger} :
    perform (enter visit account) ledger =
      (.ok (), fun other =>
        if visit = other then some account else ledger other) :=
  rfl

/-! ## Keeping accounts changes nothing -/

/-- Ledger and table have the same end sets for the same visits. -/
def SameEnds (ledger : Ledger) (memory : Memory) : Prop :=
  ∀ visit, memory.table.find? visit = (ledger visit).map Account.ends

theorem SameEnds.insert
    {ledger : Ledger} {memory : Memory} {trace : Trace} {visit : Visit}
    {account : Account}
    (same : SameEnds ledger memory) :
    SameEnds
      (fun other => if visit = other then some account else ledger other)
      ⟨memory.table.insert visit account.ends, trace⟩ := by
  intro other
  rw [Table.find?_insert]
  by_cases own : visit = other
  · simp [own]
  · simpa [own] using same other

theorem simulates_examine
    {active : List Visit} {visit : Visit} {accounted : LedgerM Account}
    {plain : ExhaustiveM Ends} {excused : Fault → Prop}
    (fresh : Simulates SameEnds excused accounted plain
      fun account ends => account.ends = ends) :
    Simulates SameEnds excused (examine active visit accounted)
      (consult active visit plain)
      fun account ends => account.ends = ends := by
  intro ledger memory same
  rw [perform_examine, perform_consult, same visit]
  cases ledger visit with
  | some known =>
      exact .values same rfl
  | none =>
      dsimp only [Option.map_none]
      split
      · exact .values same rfl
      · exact fresh ledger memory same

theorem account_simulates
    {setting : Setting} {room : Nat} {active : List Visit}
    {occurrence : Occurrence} {offset : Offset} :
    Simulates SameEnds (fun _ => False)
      (account setting room active occurrence offset)
      (visit setting room active occurrence offset)
      fun account ends => account.ends = ends := by
  induction room generalizing active occurrence offset with
  | zero =>
      rw [account, visit]
      exact simulates_examine simulates_throw
  | succ room inductionHypothesis =>
      rw [account, visit_succ, evaluate]
      apply simulates_examine
      refine simulates_bind
        (Inquiry.gather_simulates fun question => inductionHypothesis) ?_
      intro found ends sameEnds ledger memory same
      subst sameEnds
      rw [perform_bind, perform_enter, perform_bind, perform_note]
      dsimp only
      rw [perform_bind, perform_file]
      refine .values (SameEnds.insert ?_) rfl
      intro other
      rw [table_noted]
      exact same other

/-! ## Accounts are true -/

/-- Apart from the omitted visits, nothing that a search finds is lacking. -/
def Warranted
    (setting : Setting) (occurrence : Occurrence) (offset : Offset)
    (account : Account) : Prop :=
  ∀ depth avoided, account.omitted ⊆ avoided →
    Bracketed setting (Finds setting depth avoided) (occurrence, offset)
      account.ends

/-- All accounts in the ledger are warranted. -/
def LedgerWarranted
    (setting : Setting) (subject : Element) (ledger : Ledger) : Prop :=
  ∀ occurrence offset account, occurrence.Placed setting.grammar subject →
    ledger (occurrence.visitAt offset) = some account →
    Warranted setting occurrence offset account

section Warranted

variable {setting : Setting} {subject : Element} {occurrence : Occurrence}
  {offset : Offset}

theorem warranted_of_under_way :
    Warranted setting occurrence offset
      ⟨.none, [occurrence.visitAt offset]⟩ := by
  intro depth avoided subset
  constructor
  · intro stop found
    exact absurd (subset (List.mem_singleton_self _)) found.not_avoided
  · intro stop member
    exact absurd member (Ends.not_mem_none stop)

/-- The visit itself may be crossed out when its evaluation is complete, for a
search does not make it within itself. -/
theorem warranted_of_yields
    {found : Account}
    (fits : setting.Addressable)
    (inside : offset.toNat ≤ setting.input.size)
    (yields : (inquiry setting occurrence offset).Yields
      (fun question ends => ∃ omitted, omitted ⊆ found.omitted ∧
        Warranted setting question.1 question.2 ⟨ends, omitted⟩)
      found.ends) :
    Warranted setting occurrence offset
      ⟨found.ends,
        found.omitted.filter (· ≠ occurrence.visitAt offset)⟩ := by
  intro depth avoided subset
  have allAvoided :
      found.omitted ⊆ occurrence.visitAt offset :: avoided := by
    intro visit member
    by_cases own : visit = occurrence.visitAt offset
    · exact List.mem_cons.mpr (Or.inl own)
    · apply List.mem_cons_of_mem
      apply subset
      simpa [own] using member
  have between : ∀ depth, found.ends.Between
      (Unfolds setting
        (Finds setting depth (occurrence.visitAt offset :: avoided))
        occurrence offset)
      (spanReach setting occurrence offset) := by
    intro depth
    refine (meets_inquiry _ fits inside).of_yields (yields.mono ?_)
    intro question ends given
    obtain ⟨omitted, included, warranted⟩ := given
    exact warranted depth _ (List.Subset.trans included allAvoided)
  cases depth with
  | zero =>
      exact (between 0).mono (fun _ finds => finds.elim)
        fun _ spans => spans
  | succ depth =>
      exact (between depth).mono (fun _ finds => finds.2)
        fun _ spans => spans

theorem ledgerWarranted_empty :
    LedgerWarranted setting subject fun _ => none := by
  intro part start account _ filed
  cases filed

theorem LedgerWarranted.insert
    {ledger : Ledger} {account : Account}
    (warranted : LedgerWarranted setting subject ledger)
    (placed : occurrence.Placed setting.grammar subject)
    (isWarranted : Warranted setting occurrence offset account) :
    LedgerWarranted setting subject fun other =>
      if occurrence.visitAt offset = other then some account
      else ledger other := by
  intro other start entry otherPlaced filed
  dsimp only at filed
  split at filed
  · next same =>
      obtain ⟨rfl, rfl⟩ := placed.unique_of_visitAt otherPlaced same
      cases filed
      exact isWarranted
  · exact warranted other start entry otherPlaced filed

theorem upholds_examine
    {active : List Visit} {fresh : LedgerM Account}
    (placed : occurrence.Placed setting.grammar subject)
    (evaluated : Upholds (LedgerWarranted setting subject) fresh
      (Warranted setting occurrence offset)) :
    Upholds (LedgerWarranted setting subject)
      (examine active (occurrence.visitAt offset) fresh)
      (Warranted setting occurrence offset) := by
  intro ledger warranted
  rw [perform_examine]
  split
  · next known filed =>
      refine ⟨warranted, ?_⟩
      intro account returned
      cases returned
      exact warranted occurrence offset known placed filed
  · split
    · refine ⟨warranted, ?_⟩
      intro account returned
      cases returned
      exact warranted_of_under_way
    · exact evaluated ledger warranted

theorem account_warranted
    (room : Nat) (active : List Visit)
    (fits : setting.Addressable)
    (placed : occurrence.Placed setting.grammar subject)
    (inside : offset.toNat ≤ setting.input.size) :
    Upholds (LedgerWarranted setting subject)
      (account setting room active occurrence offset)
      (Warranted setting occurrence offset) := by
  induction room generalizing active occurrence offset with
  | zero =>
      rw [account]
      exact upholds_examine placed upholds_throw
  | succ room inductionHypothesis =>
      rw [account]
      refine upholds_examine placed ?_
      refine upholds_bind
        (Inquiry.gather_upholds
          (fun question => Warranted setting question.1 question.2)
          (meets_inquiry (fun _ _ _ => False) fits inside) ?_ ?_) ?_
      · intro question answer warranted
        exact warranted 0 answer.omitted (List.Subset.refl _)
      · intro question asks
        exact inductionHypothesis _ (placed.below asks.below) asks.inside
      · intro found yields
        have complete := warranted_of_yields fits inside yields
        intro ledger warranted
        rw [perform_bind, perform_enter]
        refine ⟨warranted.insert placed complete, ?_⟩
        intro result returned
        cases returned
        exact complete

end Warranted

end Exhaustive

end AbnfMatching
