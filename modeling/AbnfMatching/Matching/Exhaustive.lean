import AbnfMatching.Matching.Setting
import AbnfMatching.Matching.Table
import AbnfMatching.Matching.Trace

/-!
# Exhaustive matching

Exhaustive matching finds all ends of an element at an offset. Each completed
visit is filed in a table and answered from there ever after. A visit that is
met again while it is still under way, as happens with a rule that begins with
a reference to itself, contributes no ends at that point.

The visits under way form a chain, the latest first. Its length is the depth of
the match, which is bounded: `room` levels are still allowed.

How an occurrence is evaluated does not depend on how the occurrences below it
are answered, nor on what a computation keeps in mind meanwhile. The evaluation
is therefore written for any monad in which a fault can be raised.
-/

namespace AbnfMatching

/-- What an exhaustive match has gathered so far. -/
structure Memory where
  table : Table
  trace : Trace

/-- An exhaustive computation may stop with a fault; it keeps its memory either
way. -/
abbrev ExhaustiveM := ExceptT Fault (StateM Memory)

namespace Exhaustive

def note (setting : Setting) (entry : TraceEntry) : ExhaustiveM Unit :=
  if setting.verbose then
    modify fun memory => { memory with trace := memory.trace.push entry }
  else
    pure ()

def file (visit : Visit) (ends : Ends) : ExhaustiveM Unit :=
  modify fun memory => { memory with table := memory.table.insert visit ends }

/-- Answer a visit: from the table if it is filed there, by no ends if it is
under way, and otherwise by a fresh evaluation. -/
def consult
    (active : List Visit) (visit : Visit) (fresh : ExhaustiveM Ends) :
    ExhaustiveM Ends := do
  match (← get).table.find? visit with
  | some known => pure known
  | none => if visit ∈ active then pure .none else fresh

section Evaluation

variable {m : Type → Type} [Monad m]

/-- The ends from any of several offsets. -/
@[specialize]
def fromAny (item : Offset → m Ends) :
    List Offset → m Ends
  | [] => pure .none
  | head :: tail => do
      let first ← item head
      let others ← fromAny item tail
      pure (first.union others)

/-- The ends of occurrences matched one after the other, where the first of
them starts at any of the current ends. -/
@[specialize]
def inTurn (item : Occurrence → Offset → m Ends) :
    List Occurrence → Ends → m Ends
  | [], current => pure current
  | head :: tail, current =>
      if current.isEmpty then pure .none
      else do
        let next ← fromAny (item head) current.offsets
        inTurn item tail next

/-- The ends of any of several occurrences at one offset. -/
@[specialize]
def anyOf (item : Occurrence → Offset → m Ends) :
    List Occurrence → Offset → m Ends
  | [], _ => pure .none
  | head :: tail, offset => do
      let first ← item head offset
      let others ← anyOf item tail offset
      pure (first.union others)

/-- The ends after exactly `rounds` rounds that begin at the frontier. -/
@[specialize]
def advance (item : Offset → m Ends) :
    (rounds : Nat) → (frontier : Ends) → m Ends
  | 0, frontier => pure frontier
  | rounds + 1, frontier =>
      if frontier.isEmpty then pure .none
      else do
        let next ← fromAny item frontier.offsets
        advance item rounds next

/-- The accepted ends and those of the further rounds that begin at the
frontier, as many as are `left` if their number is limited. A round that reaches
nothing new is the last one. Every other round leaves fewer offsets that are not
accepted, so that the rounds come to an end with or without a limit. -/
@[specialize]
def extend (item : Offset → m Ends)
    (left : Option Nat) (accepted frontier : Ends) : m Ends :=
  if left = some 0 then pure accepted
  else do
    let next ← fromAny item frontier.offsets
    if settled : accepted.union next = accepted then pure accepted
    else extend item (left.map (· - 1)) (accepted.union next) next
termination_by accepted.vacancies
decreasing_by exact Ends.vacancies_union_lt settled

section Extend

variable {item : Offset → m Ends} {accepted frontier : Ends}

@[simp]
theorem extend_filled :
    extend item (some 0) accepted frontier = pure accepted := by
  rw [extend, if_pos rfl]

theorem extend_round {left : Option Nat} (roundsLeft : left ≠ some 0) :
    extend item left accepted frontier =
      fromAny item frontier.offsets >>= fun next =>
        if accepted.union next = accepted then pure accepted
        else extend item (left.map (· - 1)) (accepted.union next) next := by
  rw [extend, if_neg roundsLeft]
  rfl

end Extend

/-- Evaluate an occurrence, given how to visit the occurrences one level
below. -/
@[specialize]
def level [MonadLiftT (Except Fault) m]
    (setting : Setting) (below : Occurrence → Offset → m Ends)
    (occurrence : Occurrence) (offset : Offset) : m Ends :=
  let inside (body : Element) : Occurrence :=
    ⟨occurrence.tree, occurrence.index + 1, body⟩
  match occurrence.element with
  | .terminal value => do
      match ← liftM (setting.terminalEnd value offset) with
      | some stop => pure (.single stop)
      | none => pure .none
  | .reference name => do
      let rule ← liftM (setting.resolve name)
      below (.root (.rule rule.key) rule.element) offset
  | .sequence _ => inTurn below occurrence.children (.single offset)
  | .alternation _ => anyOf below occurrence.children offset
  | .option body => do
      let found ← below (inside body) offset
      pure (found.union (.single offset))
  | .repetition bounds body => do
      let item := below (inside body)
      let reached ← advance item bounds.minimum (.single offset)
      extend item (bounds.remaining bounds.minimum) reached reached

end Evaluation

/-- Visit an occurrence at an offset with `room` levels to spare. -/
def visit (setting : Setting) :
    (room : Nat) → (active : List Visit) → Occurrence → Offset →
      ExhaustiveM Ends
  | 0, active, occurrence, offset =>
      consult active (occurrence.visitAt offset) (throw (.tooDeep active.length))
  | room + 1, active, occurrence, offset =>
      let current := occurrence.visitAt offset
      consult active current do
        let found ←
          level setting (visit setting room (current :: active))
            occurrence offset
        note setting
          (.evaluation (active.length + 1) occurrence.element offset
            (.endsAt found))
        file current found
        pure found

/-- Visit an occurrence under a nesting limit, starting with an empty
memory. -/
def run
    (setting : Setting) (limit : Nat) (occurrence : Occurrence)
    (offset : Offset) : Except Fault Ends × Memory :=
  ((visit setting limit [] occurrence offset).run.run ⟨.empty, #[]⟩).run

end Exhaustive

end AbnfMatching
