import AbnfMatching.Matching.Setting
import AbnfMatching.Matching.Trace

/-!
# Greedy matching

Greedy matching follows one path. An alternation takes its first branch that
matches, an option takes its body whenever that matches, and a repetition goes
on for as long as it can. Nothing is revisited, so an input may be rejected
although another choice would have accepted it.

A match is the offset where it ends. The nesting of elements and references is
bounded: `room` levels are still allowed, `depth` levels are in use. As in
exhaustive matching, the evaluation of one element is written for any monad in
which a fault can be raised.
-/

namespace AbnfMatching

/-- A greedy computation may stop with a fault; it keeps its trace either
way. -/
abbrev GreedyM := ExceptT Fault (StateM Trace)

/-- How many rounds of a greedy repetition are worth trying. Without an upper
limit one round more than the input has octets is enough: every round but the
last consumes at least one octet. -/
def Bounds.rounds (bounds : Bounds) (setting : Setting) : Nat :=
  bounds.maximum.getD (setting.input.size + 1)

namespace Greedy

def note (setting : Setting) (entry : TraceEntry) : GreedyM Unit :=
  if setting.verbose then modify fun trace => trace.push entry else pure ()

section Evaluation

variable {m : Type → Type} [Monad m]

/-- Match elements one after the other, each where the previous one ended. -/
@[specialize]
def inTurn (item : Element → Offset → m (Option Offset)) :
    List Element → Offset → m (Option Offset)
  | [], offset => pure (some offset)
  | head :: tail, offset => do
      match ← item head offset with
      | some stop => inTurn item tail stop
      | none => pure none

/-- Match the first element that matches at all. -/
@[specialize]
def firstOf (item : Element → Offset → m (Option Offset)) :
    List Element → Offset → m (Option Offset)
  | [], _ => pure none
  | head :: tail, offset => do
      match ← item head offset with
      | some stop => pure (some stop)
      | none => firstOf item tail offset

/-- A repetition that can go no further ends where it is, unless rounds are
still owed to its minimum. -/
def settle (owed : Nat) (offset : Offset) : Option Offset :=
  if owed = 0 then some offset else none

/-- Match the operand of a repetition again and again, at most `rounds` times,
while `owed` rounds are missing to the minimum. The repetition settles when the
operand fails or the end of the input is reached. A round that consumes nothing
before the end of the input stands for any number of rounds, those still owed
included. -/
@[specialize]
def again
    (setting : Setting) (item : Offset → m (Option Offset)) :
    (rounds owed : Nat) → Offset → m (Option Offset)
  | 0, owed, offset => pure (settle owed offset)
  | rounds + 1, owed, offset => do
      match ← item offset with
      | none => pure (settle owed offset)
      | some stop =>
          if setting.input.size ≤ stop.toNat then
            pure (settle (owed - 1) stop)
          else if stop = offset then
            pure (some stop)
          else
            again setting item rounds (owed - 1) stop

/-- Match an element, given how to match the elements one level below. -/
@[specialize]
def level [MonadLiftT (Except Fault) m]
    (setting : Setting) (below : Element → Offset → m (Option Offset))
    (element : Element) (offset : Offset) : m (Option Offset) :=
  match element with
  | .terminal value => liftM (setting.terminalEnd value offset)
  | .reference name => do
      let rule ← liftM (setting.resolve name)
      below rule.element offset
  | .sequence parts => inTurn below parts offset
  | .alternation branches => firstOf below branches offset
  | .option body => do
      match ← below body offset with
      | some stop => pure (some stop)
      | none => pure (some offset)
  | .repetition bounds body =>
      again setting (below body) (bounds.rounds setting) bounds.minimum
        offset

end Evaluation

/-- Match an element at an offset with `room` levels to spare. -/
def evaluate (setting : Setting) :
    (room depth : Nat) → Element → Offset → GreedyM (Option Offset)
  | 0, depth, _, _ => throw (.tooDeep depth)
  | room + 1, depth, element, offset => do
      let found ←
        level setting (evaluate setting room (depth + 1)) element offset
      note setting
        (.evaluation (depth + 1) element offset (.ofEnd offset found))
      pure found

/-- Match an element under a nesting limit, starting with an empty trace. -/
def run
    (setting : Setting) (limit : Nat) (element : Element) (offset : Offset) :
    Except Fault (Option Offset) × Trace :=
  ((evaluate setting limit 0 element offset).run.run #[]).run

end Greedy

end AbnfMatching
