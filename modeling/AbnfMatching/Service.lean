import AbnfMatching.Conformance.Basic
import AbnfMatching.Grammar.Core

/-!
# A service for callers with raw buffers

Callers that cannot handle grammars and rules themselves pass raw arguments,
any of which may be absent: a grammar, a name that ends at its first zero
octet, an input of stated length, a number for the strategy, and room for a
message of limited size. They get back a status number, and a message unless
the check succeeds.
-/

namespace AbnfMatching

namespace Service

inductive Status where
  | conforming
  | mismatch
  | incomplete
  | unsupported
  | undefinedRule
  | tooDeep
  | unusable
deriving DecidableEq

def Status.code : Status → Int
  | conforming => 0
  | mismatch => 1
  | incomplete => 2
  | unsupported => 3
  | undefinedRule => 4
  | tooDeep => 5
  | unusable => -1

def Status.ofFailure : Failure → Status
  | .rejected (.mismatch _) => mismatch
  | .rejected (.incomplete _ _ _) => incomplete
  | .fault (.noGrammar _) => unsupported
  | .fault (.undefinedRule _) => undefinedRule
  | .fault (.tooDeep _) => tooDeep
  | .fault .outOfRange => unusable

/-- The strategy that a number stands for: one means exhaustive matching, every
other number means greedy matching. -/
def strategyOfCode (code : Int) : Strategy :=
  if code = 1 then .exhaustive else .greedy

def untilZero (bytes : Octets) : Octets :=
  bytes.takeWhile (· != 0)

/-- What is left behind in a buffer: a text and, from there to the end of the
buffer, zero octets. -/
structure Buffer where
  text : Octets
  zeros : Nat
deriving DecidableEq

def Buffer.contents (buffer : Buffer) : Octets :=
  buffer.text ++ List.replicate buffer.zeros 0

/-- A buffer of the given size after a message has been written to it. The
message goes no further than its first zero octet and leaves the last octet of
the buffer free; whatever it does not fill is filled with zero octets. A buffer
without any room stays as it was. -/
def written (capacity : Int) (message : Octets) : Option Buffer :=
  if 0 < capacity then
    let text := (untilZero message).take (capacity.toNat - 1)
    some ⟨text, capacity.toNat - text.length⟩
  else
    none

def unusableMessage : Octets :=
  octets "Invalid argument"

structure Request where
  grammar : Option Grammar
  name : Option Octets
  input : Option Octets
  length : Nat
  strategy : Int
  /-- The size of the buffer for messages, if there is a buffer. -/
  capacity : Option Int

/-- A status, and the buffer for messages if something was written to it. -/
structure Reply where
  status : Status
  buffer : Option Buffer

/-- The message that was written, if any. -/
def Reply.message (reply : Reply) : Option Octets :=
  reply.buffer.map Buffer.text

/-- Reply with a status and as much of a message as there is room for. -/
def Request.refuse
    (request : Request) (status : Status) (message : Octets) : Reply :=
  ⟨status, request.capacity.bind fun capacity => written capacity message⟩

/-- Check an input as requested. An absent input is fine as long as its stated
length is zero. -/
def Request.answer (request : Request) : Reply :=
  match request.grammar, request.name with
  | some grammar, some name =>
      if request.input.isNone && 0 < request.length then
        request.refuse .unusable unusableMessage
      else
        let input := (request.input.getD []).take request.length
        let options : Options :=
          { strategy := strategyOfCode request.strategy }
        let report :=
          Conformance.validateNamed options grammar (untilZero name) input
        match report.outcome with
        | .ok () => ⟨.conforming, none⟩
        | .error failure =>
            request.refuse (.ofFailure failure) failure.message
  | _, _ => request.refuse .unusable unusableMessage

/-- The number of rules; an absent grammar counts as one without rules. -/
def size (grammar : Option Grammar) : Nat :=
  (grammar.map Grammar.size).getD 0

/-- Whether there is a grammar and it has a rule of the name. -/
def defines (grammar : Option Grammar) (name : Option Octets) : Bool :=
  match grammar, name with
  | some grammar, some name => grammar.defines (untilZero name)
  | _, _ => false

def offered : Grammar :=
  Grammar.core

end Service

end AbnfMatching
