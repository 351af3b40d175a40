import AbnfMatching.Proofs.Exactness
import AbnfMatching.Proofs.GreedyRange
import Mathlib.Logic.Relation

/-!
# Calls

Matching an element is a call, which makes calls in turn: one for each question
of its inquiry that the replies so far lead to. All calls of a match start
between the offset of the match and the end of the input and find nothing
outside this range. Hence no 64-bit word on the way wraps around, and every
slice of the input that is taken exists.
-/

namespace AbnfMatching

/-! ## Questions that are put -/

namespace Inquiry

variable {Question Reply α σ : Type}
  {answer answer' : Question → ExceptT Fault (StateM σ) Reply}
  {inquiry : Inquiry Question Reply α}

/-- Nothing but the answers to the questions that are put counts. -/
theorem perform_carryOut_of_puts
    {state : σ}
    (same : ∀ question moment, Puts answer inquiry state question moment →
      perform (answer question) moment = perform (answer' question) moment) :
    perform (inquiry.carryOut answer) state =
      perform (inquiry.carryOut answer') state := by
  induction inquiry generalizing state with
  | done value =>
      rfl
  | fault cause =>
      rfl
  | ask question resume inductionHypothesis =>
      rw [carryOut, carryOut, perform_bind, perform_bind,
        ← same question state .now]
      cases answered : perform (answer question) state with
      | mk result middle =>
          cases result with
          | error cause =>
              rfl
          | ok reply =>
              apply inductionHypothesis
              intro other moment puts
              exact same other moment (.later answered puts)

end Inquiry

/-! ## Words in range -/

/-- The sum of the words does not wrap around. -/
def AddsUp (left right : UInt64) : Prop :=
  (left + right).toNat = left.toNat + right.toNat

theorem addsUp_of_lt
    {left right : UInt64}
    (fits : left.toNat + right.toNat < UInt64.size) :
    AddsUp left right := by
  unfold AddsUp
  rw [UInt64.toNat_add]
  exact Nat.mod_eq_of_lt fits

/-- Half of the 64-bit range, two to the power of 63. -/
def halfRange : Nat :=
  UInt64.size / 2

theorem addressable_of_short
    {setting : Setting} (short : setting.input.size < halfRange) :
    setting.Addressable := by
  rw [Setting.Addressable]
  rw [halfRange] at short
  omega

/-- What holds of a call that matches an element at an offset, when the match as
a whole starts at the origin: it starts in range, the end of a literal that is
not absurdly long does not wrap around, and the slices of the input exist. -/
structure StaysInside
    {α : Type} (setting : Setting) (origin : Offset) (element : Element)
    (offset : Offset) (outcome : Except Fault α) : Prop where
  ordered : origin ≤ offset
  inside : offset.toNat ≤ setting.input.size
  literal : ∀ value, element = .terminal value → value.length < halfRange →
    (offset + UInt64.ofNat value.length).toNat =
      offset.toNat + value.length
  slices : outcome ≠ .error .outOfRange

theorem staysInside
    {α : Type} {setting : Setting} {origin offset : Offset}
    {element : Element} {outcome : Except Fault α}
    (short : setting.input.size < halfRange)
    (ordered : origin ≤ offset)
    (inside : offset.toNat ≤ setting.input.size)
    (slices : outcome ≠ .error .outOfRange) :
    StaysInside setting origin element offset outcome := by
  refine ⟨ordered, inside, ?_, slices⟩
  intro value _ valueShort
  rw [halfRange] at short valueShort
  apply toNat_add_ofNat
  omega

/-! ## Greedy matching -/

namespace Greedy

/-- How many octets a match consumes: none if it fails. -/
def consumed (offset : Offset) (found : Option Offset) : UInt64 :=
  (found.map (· - offset)).getD 0

/-- A call of greedy matching, with the levels and the trace at that time. -/
structure Call where
  room : Nat
  depth : Nat
  element : Element
  offset : Offset
  trace : Trace

namespace Call

/-- The call that is the match as a whole. -/
def first (limit : Nat) (element : Element) (offset : Offset) : Call :=
  ⟨limit, 0, element, offset, #[]⟩

def outcome (setting : Setting) (call : Call) :
    Except Fault (Option Offset) :=
  (perform (evaluate setting call.room call.depth call.element call.offset)
    call.trace).1

/-- A call makes another one, for an element right below, if its inquiry comes
to put the question. -/
structure Makes (setting : Setting) (call inner : Call) : Prop where
  room : call.room = inner.room + 1
  depth : inner.depth = call.depth + 1
  puts : (inquiry setting call.element call.offset).Puts
    (fun question => evaluate setting inner.room inner.depth question.1
      question.2)
    call.trace (inner.element, inner.offset) inner.trace

/-- No other matches than the calls that it makes count for the outcome of a
call: as long as these are answered the same, the outcome is the same. -/
def DecidedByCalls (setting : Setting) (call : Call) : Prop :=
  ∀ room, call.room = room + 1 →
    ∀ answer : Element × Offset → GreedyM (Option Offset),
      (∀ inner, call.Makes setting inner →
        perform (evaluate setting inner.room inner.depth inner.element
          inner.offset) inner.trace =
        perform (answer (inner.element, inner.offset)) inner.trace) →
      call.outcome setting =
        (perform
          ((inquiry setting call.element call.offset).carryOut answer)
          call.trace).1

theorem decidedByCalls (setting : Setting) (call : Call) :
    call.DecidedByCalls setting := by
  intro room levels answer same
  rw [outcome, levels, outcome_evaluate]
  apply congrArg Prod.fst
  apply Inquiry.perform_carryOut_of_puts
  intro question moment puts
  exact same ⟨room, call.depth + 1, question.1, question.2, moment⟩
    ⟨levels, rfl, puts⟩

/-- The call stays inside, and so does what it consumes: before and after each
inner call, the octets consumed so far are counted from the offset of the call
without wrapping around. -/
structure InBounds (setting : Setting) (origin : Offset) (call : Call) :
    Prop extends
    StaysInside setting origin call.element call.offset
      (call.outcome setting) where
  ends : ∀ found, call.outcome setting = .ok found →
    EndsInside setting call.offset found
  consumes : ∀ found, call.outcome setting = .ok found →
    (consumed call.offset found).toNat ≤
      setting.input.size - call.offset.toNat
  totals : ∀ inner, call.Makes setting inner →
    AddsUp call.offset (inner.offset - call.offset) ∧
    ∀ found, inner.outcome setting = .ok found →
      AddsUp (inner.offset - call.offset) (consumed inner.offset found) ∧
      AddsUp call.offset
        (inner.offset - call.offset + consumed inner.offset found)

section InBounds

variable {setting : Setting} {origin : Offset} {call inner : Call}

/-- An inner call is for an element right below, and in a region that its caller
does not leave. -/
theorem Makes.within
    {region : Offset → Prop}
    (makes : call.Makes setting inner)
    (retained : setting.Retains region) (inRegion : region call.offset) :
    (∃ part, Below setting.grammar (.root .tested call.element) part ∧
      part.element = inner.element) ∧ region inner.offset :=
  (makes.puts.allowed
    (meets_inquiry_foundIn (.root .tested call.element) retained
      (fun _ _ _ found => found) inRegion)
    (fun _ asked =>
      evaluate_upholds_foundIn inner.room inner.depth retained asked.2)
    trivial).1

theorem Makes.below (makes : call.Makes setting inner) :
    ∃ part, Below setting.grammar (.root .tested call.element) part ∧
      part.element = inner.element := by
  -- All offsets together are a region that is never left.
  have retained : setting.Retains fun _ => True :=
    fun _ _ _ _ _ => trivial
  exact (makes.within retained trivial).1

/-- An inner call starts where its caller starts or later, within the input. -/
theorem Makes.inRange
    (makes : call.Makes setting inner)
    (fits : setting.Addressable)
    (inside : call.offset.toNat ≤ setting.input.size) :
    call.offset ≤ inner.offset ∧
      inner.offset.toNat ≤ setting.input.size :=
  (makes.within ((setting.upward_from call.offset).retains fits)
    ⟨UInt64.le_refl call.offset, inside⟩).2

theorem endsInside_of_outcome
    {found : Option Offset}
    (fits : setting.Addressable)
    (inside : call.offset.toNat ≤ setting.input.size)
    (returned : call.outcome setting = .ok found) :
    EndsInside setting call.offset found :=
  (evaluate_upholds_inside call.room call.depth fits inside call.trace
    trivial).2 found returned

end InBounds

end Call

/-- What is consumed lies between the start and the end of the input. -/
theorem EndsInside.consumed_le
    {setting : Setting} {start : Offset} {found : Option Offset}
    (ends : EndsInside setting start found) :
    (consumed start found).toNat ≤ setting.input.size - start.toNat := by
  cases found with
  | none =>
      exact Nat.zero_le _
  | some stop =>
      obtain ⟨ordered, inside⟩ := ends stop rfl
      have distance : (consumed start (some stop)).toNat =
          stop.toNat - start.toNat := toNat_sub_of_le ordered
      omega

namespace Call

section InBounds

variable {setting : Setting} {origin : Offset} {call : Call}

theorem inBounds
    (short : setting.input.size < halfRange)
    (ordered : origin ≤ call.offset)
    (inside : call.offset.toNat ≤ setting.input.size) :
    call.InBounds setting origin := by
  have fits := addressable_of_short short
  have bounded : setting.input.size < UInt64.size := fits
  have slices : call.outcome setting ≠ .error .outOfRange := by
    intro failed
    rcases fault_of_evaluate fits inside failed with deep | unresolved
    · cases deep
    · exact unresolved
  refine ⟨staysInside short ordered inside slices, ?_, ?_, ?_⟩
  · intro found returned
    exact endsInside_of_outcome fits inside returned
  · intro found returned
    exact (endsInside_of_outcome fits inside returned).consumed_le
  · intro inner makes
    obtain ⟨after, innerInside⟩ := makes.inRange fits inside
    have sofar : (inner.offset - call.offset).toNat =
        inner.offset.toNat - call.offset.toNat := toNat_sub_of_le after
    have callLe := UInt64.le_iff_toNat_le.mp after
    have start : AddsUp call.offset (inner.offset - call.offset) := by
      apply addsUp_of_lt
      rw [sofar]
      omega
    refine ⟨start, ?_⟩
    intro found returned
    have few :=
      (endsInside_of_outcome fits innerInside returned).consumed_le
    have total : AddsUp (inner.offset - call.offset)
        (consumed inner.offset found) := by
      apply addsUp_of_lt
      rw [sofar]
      omega
    refine ⟨total, ?_⟩
    apply addsUp_of_lt
    rw [total, sofar]
    omega

end InBounds

end Call

/-- Every call of a match that starts in the input is in bounds. -/
theorem calls_inBounds
    {setting : Setting} {limit : Nat} {element : Element} {origin : Offset}
    {call : Call}
    (short : setting.input.size < halfRange)
    (inside : origin.toNat ≤ setting.input.size)
    (calls : Relation.ReflTransGen (Call.Makes setting)
      (.first limit element origin) call) :
    call.InBounds setting origin := by
  have fits := addressable_of_short short
  induction calls with
  | refl =>
      exact Call.inBounds short (UInt64.le_refl origin) inside
  | tail _ makes inductionHypothesis =>
      obtain ⟨after, innerInside⟩ :=
        makes.inRange fits inductionHypothesis.inside
      exact Call.inBounds short
        (UInt64.le_trans inductionHypothesis.ordered after) innerInside

end Greedy

/-! ## Exhaustive matching -/

namespace Exhaustive

/-- A call of exhaustive matching, with the levels, the visits under way and
the memory at that time. -/
structure Call where
  room : Nat
  active : List Visit
  occurrence : Occurrence
  offset : Offset
  memory : Memory

namespace Call

/-- The call that is the match as a whole. -/
def first
    (limit : Nat) (place : Place) (element : Element) (offset : Offset) :
    Call :=
  ⟨limit, [], place.occurrence element, offset, ⟨.empty, #[]⟩⟩

def outcome (setting : Setting) (call : Call) : Except Fault Ends :=
  (perform (visit setting call.room call.active call.occurrence call.offset)
    call.memory).1

/-- The visit is neither filed nor under way when the call is made. -/
structure Fresh (call : Call) : Prop where
  unfiled : call.memory.table.find?
    (call.occurrence.visitAt call.offset) = none
  notUnderWay : call.occurrence.visitAt call.offset ∉ call.active

/-- A call makes another one, for an occurrence right below, if it is fresh and
its inquiry comes to put the question. -/
structure Makes (setting : Setting) (call inner : Call) : Prop
    extends call.Fresh where
  room : call.room = inner.room + 1
  active : inner.active =
    call.occurrence.visitAt call.offset :: call.active
  puts : (inquiry setting call.occurrence call.offset).Puts
    (fun question => visit setting inner.room inner.active question.1
      question.2)
    call.memory (inner.occurrence, inner.offset) inner.memory

/-- A fresh call with a level to spare comes to what its inquiry comes to. -/
theorem Fresh.outcome_eq
    {setting : Setting} {call : Call} {room : Nat}
    (fresh : call.Fresh) (levels : call.room = room + 1) :
    call.outcome setting =
      (perform ((inquiry setting call.occurrence call.offset).carryOut
        fun question =>
          visit setting room
            (call.occurrence.visitAt call.offset :: call.active)
            question.1 question.2) call.memory).1 := by
  rw [outcome, levels, perform_visit_succ fresh.unfiled fresh.notUnderWay,
    perform_evaluate]
  generalize perform
    ((inquiry setting call.occurrence call.offset).carryOut fun question =>
      visit setting room
        (call.occurrence.visitAt call.offset :: call.active)
        question.1 question.2) call.memory = performed
  obtain ⟨cause | found, later⟩ := performed
  · rfl
  · rfl

/-- No other visits than the calls that it makes count for the outcome of a
fresh call. -/
def DecidedByCalls (setting : Setting) (call : Call) : Prop :=
  call.Fresh → ∀ room, call.room = room + 1 →
    ∀ answer : Occurrence × Offset → ExhaustiveM Ends,
      (∀ inner, call.Makes setting inner →
        perform (visit setting inner.room inner.active inner.occurrence
          inner.offset) inner.memory =
        perform (answer (inner.occurrence, inner.offset)) inner.memory) →
      call.outcome setting =
        (perform
          ((inquiry setting call.occurrence call.offset).carryOut answer)
          call.memory).1

theorem decidedByCalls (setting : Setting) (call : Call) :
    call.DecidedByCalls setting := by
  intro fresh room levels answer same
  rw [fresh.outcome_eq levels]
  apply congrArg Prod.fst
  apply Inquiry.perform_carryOut_of_puts
  intro question moment puts
  exact same
    ⟨room, call.occurrence.visitAt call.offset :: call.active, question.1,
      question.2, moment⟩
    ⟨fresh, levels, rfl, puts⟩

/-- The call stays inside, and so do the ends that it finds. -/
structure InBounds (setting : Setting) (origin : Offset) (call : Call) :
    Prop extends
    StaysInside setting origin call.occurrence.element call.offset
      (call.outcome setting) where
  ends : ∀ found, call.outcome setting = .ok found → ∀ stop ∈ found,
    call.offset ≤ stop ∧ stop.toNat ≤ setting.input.size

/-- What is known of a call when it is made. -/
structure Sound
    (setting : Setting) (subject : Element) (origin : Offset) (call : Call) :
    Prop where
  placed : call.occurrence.Placed setting.grammar subject
  ordered : origin ≤ call.offset
  inside : call.offset.toNat ≤ setting.input.size
  sound : FiledWell setting.grammar subject
    (fun part start => Bracketed setting (fun _ _ _ => False) (part, start))
    call.memory

section InBounds

variable {setting : Setting} {subject : Element} {origin : Offset}
  {call inner : Call}

/-- An inner call is for an occurrence right below, in a region that its caller
does not leave and with a memory that is confined to it. -/
theorem Makes.within
    {region : Offset → Prop} {original : Memory}
    (makes : call.Makes setting inner)
    (retained : setting.Retains region) (inRegion : region call.offset)
    (confined : Confined region original call.memory) :
    Below setting.grammar call.occurrence inner.occurrence ∧
      region inner.offset ∧ Confined region original inner.memory := by
  have made := makes.puts.allowed (meets_inquiry_lieIn retained inRegion)
    (fun _ asked => visit_confined retained asked.2) confined
  exact ⟨made.1.1, made.1.2, made.2⟩

theorem Makes.below (makes : call.Makes setting inner) :
    Below setting.grammar call.occurrence inner.occurrence := by
  have retained : setting.Retains fun _ => True :=
    fun _ _ _ _ _ => trivial
  have confined : Confined (fun _ => True) call.memory call.memory :=
    ⟨fun _ _ _ _ _ _ => trivial, fun _ outside => absurd trivial outside⟩
  exact (makes.within retained trivial confined).1

theorem Sound.made
    (sound : call.Sound setting subject origin)
    (makes : call.Makes setting inner)
    (fits : setting.Addressable) :
    inner.Sound setting subject origin := by
  have answers : ∀ question,
      Asks setting call.occurrence call.offset question →
      Upholds
        (FiledWell setting.grammar subject fun part start =>
          Bracketed setting (fun _ _ _ => False) (part, start))
        (visit setting inner.room inner.active question.1 question.2)
        (Bracketed setting (fun _ _ _ => False) question) :=
    fun question asks =>
      visit_sound inner.room inner.active fits
        (sound.placed.below asks.below) asks.inside
  obtain ⟨asks, kept⟩ := makes.puts.allowed
    (meets_inquiry (fun _ _ _ => False) fits sound.inside) answers sound.sound
  exact ⟨sound.placed.below asks.below,
    UInt64.le_trans sound.ordered asks.ordered, asks.inside, kept⟩

theorem Sound.fault
    {cause : Fault}
    (sound : call.Sound setting subject origin)
    (fits : setting.Addressable)
    (failed : call.outcome setting = .error cause) :
    (∃ depth, cause = .tooDeep depth) ∨ cause.IsUnresolved := by
  refine fault_of_visit subject
    (fun cause => (∃ depth, cause = .tooDeep depth) ∨ cause.IsUnresolved)
    (fun _ _ part start => part.Placed setting.grammar subject ∧
      start.toNat ≤ setting.input.size)
    fits (fun _ _ _ _ ready => ready) ?_ ?_ ?_
    ⟨sound.placed, sound.inside⟩ sound.sound failed
  · intro active part start ready notUnderWay
    exact Or.inl ⟨active.length, rfl⟩
  · intro room active part start own ready denies
    exact Or.inr (denies.isUnresolved ready.2)
  · intro room active part start question ready notUnderWay asks
    exact ⟨ready.1.below asks.below, asks.inside⟩

theorem Sound.inBounds
    (sound : call.Sound setting subject origin)
    (short : setting.input.size < halfRange) :
    call.InBounds setting origin := by
  have fits := addressable_of_short short
  have slices : call.outcome setting ≠ .error .outOfRange := by
    intro failed
    rcases sound.fault fits failed with ⟨depth, deep⟩ | unresolved
    · cases deep
    · exact unresolved
  refine ⟨staysInside short sound.ordered sound.inside slices, ?_⟩
  intro found returned stop member
  have upheld := visit_sound call.room call.active fits sound.placed
    sound.inside call.memory sound.sound
  have spans := (upheld.2 found returned).sound stop member
  exact ⟨spans.ordered, spans.inside⟩

end InBounds

end Call

theorem calls_sound
    {setting : Setting} {limit : Nat} {place : Place} {element : Element}
    {origin : Offset} {call : Call}
    (fits : setting.Addressable)
    (holds : place.Holds setting.grammar element)
    (inside : origin.toNat ≤ setting.input.size)
    (calls : Relation.ReflTransGen (Call.Makes setting)
      (.first limit place element origin) call) :
    call.Sound setting element origin := by
  induction calls with
  | refl =>
      exact ⟨holds, UInt64.le_refl origin, inside, filedWell_empty⟩
  | tail _ makes inductionHypothesis =>
      exact inductionHypothesis.made makes fits

end Exhaustive

/-! ## Entry points -/

namespace Conformance

/-- Whatever calls greedy or exhaustive matching makes from an offset of the
input, they are in bounds, and the calls that each of them makes in turn are all
that count for its outcome. -/
theorem every_call_inBounds
    {options : Options} {grammar : Option Grammar} {element : Element}
    {input : Octets} {offset : Offset} {place : Place}
    (short : input.length < halfRange)
    (holds : place.Holds grammar element)
    (inside : offset.toNat ≤ input.length) :
    (∀ call : Greedy.Call,
      Relation.ReflTransGen
        (Greedy.Call.Makes (setting options grammar input))
        (.first options.limit element offset) call →
      call.InBounds (setting options grammar input) offset ∧
        call.DecidedByCalls (setting options grammar input)) ∧
    (∀ call : Exhaustive.Call,
      Relation.ReflTransGen
        (Exhaustive.Call.Makes (setting options grammar input))
        (.first options.limit place element offset) call →
      call.InBounds (setting options grammar input) offset ∧
        call.DecidedByCalls (setting options grammar input)) := by
  have shortSetting :
      (setting options grammar input).input.size < halfRange := by
    rw [size_setting]
    exact short
  have insideSetting := inside_setting options grammar inside
  refine ⟨?_, ?_⟩
  · intro call calls
    exact ⟨Greedy.calls_inBounds shortSetting insideSetting calls,
      Greedy.Call.decidedByCalls _ call⟩
  · intro call calls
    have sound := Exhaustive.calls_sound (addressable_of_short shortSetting)
      holds insideSetting calls
    exact ⟨sound.inBounds shortSetting,
      Exhaustive.Call.decidedByCalls _ call⟩

/-- Two octets are matched with the rule `ys = "x" ys / "x"`. -/
def growingRun : Setting :=
  setting { limit := 16 } (some (.ofRules [growingRight])) (octets "xx")

/-- Either way of matching comes to the reference after one octet, and from
there to the end of the input. -/
theorem every_call_inBounds_growingRight :
    (∃ call : Greedy.Call,
      Relation.ReflTransGen (Greedy.Call.Makes growingRun)
        (.first 16 growingRight.element 0) call ∧
      call.element = .reference growingRight.name ∧ call.offset = 1 ∧
      call.outcome growingRun = .ok (some 2) ∧ call.InBounds growingRun 0) ∧
    (∃ call : Exhaustive.Call,
      Relation.ReflTransGen (Exhaustive.Call.Makes growingRun)
        (.first 16 (.rule growingRight.key) growingRight.element 0) call ∧
      call.occurrence.element = .reference growingRight.name ∧
      call.offset = 1 ∧
      call.outcome growingRun = .ok (.single 2) ∧
      call.InBounds growingRun 0) := by
  have short : (octets "xx").length < halfRange := by
    decide
  have inside : (0 : Offset).toNat ≤ (octets "xx").length :=
    Nat.zero_le _
  have holds : (Place.rule growingRight.key).Holds
      (some (.ofRules [growingRight])) growingRight.element :=
    Occurrence.placed_root rfl
  obtain ⟨greedy, exhaustive⟩ :=
    @every_call_inBounds { limit := 16 } (some (.ofRules [growingRight]))
      growingRight.element (octets "xx") 0 (.rule growingRight.key) short
      holds inside
  let sequence := Element.sequence
    [.terminal (.caseless (octets "x")), .reference growingRight.name]
  constructor
  · let outer : Greedy.Call := ⟨15, 1, sequence, 0, #[]⟩
    let inner : Greedy.Call :=
      ⟨14, 2, .reference growingRight.name, 1, #[]⟩
    have toOuter : Greedy.Call.Makes growingRun
        (.first 16 growingRight.element 0) outer :=
      ⟨rfl, rfl, .now⟩
    have toInner : outer.Makes growingRun inner :=
      ⟨rfl, rfl, .later rfl .now⟩
    have calls := (Relation.ReflTransGen.single toOuter).tail toInner
    exact ⟨inner, calls, rfl, rfl, by rfl, (greedy inner calls).1⟩
  · let tree := Tree.rule growingRight.key
    let outer : Exhaustive.Call :=
      ⟨15, [⟨0, 0, tree⟩], ⟨tree, 1, sequence⟩, 0, ⟨.empty, #[]⟩⟩
    let inner : Exhaustive.Call :=
      ⟨14, [⟨0, 1, tree⟩, ⟨0, 0, tree⟩],
        ⟨tree, 3, .reference growingRight.name⟩, 1,
        ⟨Table.insert .empty ⟨0, 2, tree⟩ (.single 1), #[]⟩⟩
    have toOuter : Exhaustive.Call.Makes growingRun
        (.first 16 (.rule growingRight.key) growingRight.element 0) outer :=
      ⟨⟨rfl, List.not_mem_nil⟩, rfl, rfl, .now⟩
    have toInner : outer.Makes growingRun inner :=
      ⟨⟨rfl, by decide⟩, rfl, rfl, .later rfl .now⟩
    have calls := (Relation.ReflTransGen.single toOuter).tail toInner
    exact ⟨inner, calls, rfl, rfl, by rfl, (exhaustive inner calls).1⟩

end Conformance

end AbnfMatching
