import AbnfMatching.Proofs.GreedyRange
import AbnfMatching.Proofs.RecordedEvaluations
import Mathlib.Data.List.Chain

/-!
# Nested traces

The entry of an evaluation is made when the evaluation is complete, after the
entries of the evaluations that it led to, which are one level deeper. A trace
is thus a listing of nested evaluations from the inside to the outside. If a
fault stops a match, the entries of all evaluations that are still under way are
missing, and the trace is the part of such a listing that comes before them.

From one entry to the next the indentation may grow by any amount, but it
shrinks by one level at most.
-/

namespace AbnfMatching

/-- The element stands right below another one: it is one of its constituents,
or the element of the rule to which the other one refers. -/
def RightBelow
    (grammar : Option Grammar) (element part : Element) : Prop :=
  part ∈ element.children ∨
    ∃ name rule, element = .reference name ∧
      ruleOf grammar name = some rule ∧ part = rule.element

theorem Below.rightBelow
    {grammar : Option Grammar} {occurrence part : Occurrence}
    (below : Below grammar occurrence part) :
    RightBelow grammar occurrence.element part.element := by
  cases below with
  | constituent member => exact Or.inl (Occurrence.element_mem_children member)
  | @meaning name rule shape meaning =>
      exact Or.inr ⟨name, rule, shape, meaning, rfl⟩

/-- The entries of complete evaluations at the depth, made one after the other,
of elements right below the given one. -/
inductive Subentries (grammar : Option Grammar) :
    (depth : Nat) → Element → List TraceEntry → Prop
  | nil {depth : Nat} {element : Element} :
      Subentries grammar depth element []
  | snoc {depth : Nat} {element part : Element} {offset : Offset}
      {finding : Finding} {earlier inner : List TraceEntry} :
      Subentries grammar depth element earlier →
      RightBelow grammar element part →
      Subentries grammar (depth + 1) part inner →
      Subentries grammar depth element
        (earlier ++ (inner ++ [.evaluation depth part offset finding]))

/-- The entries of one complete evaluation: its own comes last. -/
def Completed
    (grammar : Option Grammar) (depth : Nat) (element : Element)
    (offset : Offset) (finding : Finding) (entries : List TraceEntry) : Prop :=
  ∃ inner, Subentries grammar (depth + 1) element inner ∧
    entries = inner ++ [.evaluation depth element offset finding]

/-- The entries of an evaluation that a fault has stopped: those of complete
evaluations right below and, unless the fault is its own, those of one more
evaluation that has been stopped. -/
inductive Interrupted (grammar : Option Grammar) :
    (depth : Nat) → Element → List TraceEntry → Prop
  | here {depth : Nat} {element : Element} {entries : List TraceEntry} :
      Subentries grammar (depth + 1) element entries →
      Interrupted grammar depth element entries
  | within {depth : Nat} {element part : Element}
      {earlier later : List TraceEntry} :
      Subentries grammar (depth + 1) element earlier →
      RightBelow grammar element part →
      Interrupted grammar (depth + 1) part later →
      Interrupted grammar depth element (earlier ++ later)

/-! ## Indentation -/

def TraceEntry.indent : TraceEntry → Nat
  | heading _ _ => 0
  | evaluation depth _ _ _ => indentation depth

theorem TraceEntry.indentation_succ (depth : Nat) :
    indentation (depth + 1) = indentation depth + 2 :=
  rfl

/-- From one entry to the next, the indentation shrinks by one level at
most. -/
def EvenlyIndented (entries : List TraceEntry) : Prop :=
  entries.IsChain fun entry next => entry.indent ≤ next.indent + 2

section Indentation

variable {grammar : Option Grammar} {depth : Nat} {element : Element}
  {entries front back : List TraceEntry}

theorem EvenlyIndented.append
    (bound : Nat)
    (frontEven : EvenlyIndented front) (backEven : EvenlyIndented back)
    (low : ∀ entry ∈ front.getLast?, entry.indent ≤ bound + 2)
    (high : ∀ entry ∈ back, bound ≤ entry.indent) :
    EvenlyIndented (front ++ back) := by
  apply List.isChain_append.mpr
  refine ⟨frontEven, backEven, ?_⟩
  intro entry isLast next isFirst
  have before := low entry isLast
  have after := high next (List.mem_of_mem_head? isFirst)
  omega

/-- All entries are at the depth or deeper, and the last one is at the
depth. -/
structure Indented (depth : Nat) (entries : List TraceEntry) : Prop where
  even : EvenlyIndented entries
  deep : ∀ entry ∈ entries, TraceEntry.indentation depth ≤ entry.indent
  last : ∀ entry ∈ entries.getLast?,
    entry.indent = TraceEntry.indentation depth

theorem indented_nil : Indented depth [] :=
  ⟨.nil, fun _ member => absurd member List.not_mem_nil,
    fun _ isLast => nomatch isLast⟩

/-- The entry of an evaluation comes after the deeper ones. -/
theorem Indented.outward
    {offset : Offset} {finding : Finding}
    (indented : Indented (depth + 1) entries) :
    Indented depth
      (entries ++ [.evaluation depth element offset finding]) := by
  refine ⟨?_, ?_, ?_⟩
  · apply indented.even.append (TraceEntry.indentation depth)
    · exact .singleton _
    · intro entry isLast
      rw [indented.last entry isLast, TraceEntry.indentation_succ]
    · intro entry member
      rw [List.mem_singleton.mp member]
      exact Nat.le_refl _
  · intro entry member
    rcases List.mem_append.mp member with inner | own
    · have deep := indented.deep entry inner
      rw [TraceEntry.indentation_succ] at deep
      omega
    · rw [List.mem_singleton.mp own]
      exact Nat.le_refl _
  · intro entry isLast
    rw [List.getLast?_concat] at isLast
    cases isLast
    rfl

theorem Indented.append
    (frontIndented : Indented depth front)
    (backIndented : Indented depth back) :
    Indented depth (front ++ back) := by
  refine ⟨?_, ?_, ?_⟩
  · apply frontIndented.even.append _ backIndented.even _ backIndented.deep
    intro entry isLast
    rw [frontIndented.last entry isLast]
    exact Nat.le_add_right _ 2
  · intro entry member
    rcases List.mem_append.mp member with inFront | inBack
    · exact frontIndented.deep entry inFront
    · exact backIndented.deep entry inBack
  · intro entry isLast
    rw [List.getLast?_append] at isLast
    cases lastOfBack : back.getLast? with
    | none =>
        rw [lastOfBack] at isLast
        exact frontIndented.last entry isLast
    | some other =>
        rw [lastOfBack] at isLast
        cases isLast
        exact backIndented.last entry lastOfBack

theorem Subentries.indented
    (subentries : Subentries grammar depth element entries) :
    Indented depth entries := by
  induction subentries with
  | nil => exact indented_nil
  | snoc _ _ _ earlierIndented innerIndented =>
      exact earlierIndented.append innerIndented.outward

theorem Completed.indented
    {offset : Offset} {finding : Finding}
    (completed : Completed grammar depth element offset finding entries) :
    Indented depth entries := by
  obtain ⟨inner, subentries, rfl⟩ := completed
  exact subentries.indented.outward

theorem Interrupted.even
    (interrupted : Interrupted grammar depth element entries) :
    EvenlyIndented entries ∧
      ∀ entry ∈ entries, TraceEntry.indentation depth ≤ entry.indent := by
  induction interrupted with
  | here subentries =>
      have indented := subentries.indented
      refine ⟨indented.even, ?_⟩
      intro entry member
      have deep := indented.deep entry member
      rw [TraceEntry.indentation_succ] at deep
      omega
  | @within depth element part earlier later subentries _ _
      inductionHypothesis =>
      have indented := subentries.indented
      constructor
      · apply indented.even.append _ inductionHypothesis.1 _
          inductionHypothesis.2
        intro entry isLast
        rw [indented.last entry isLast]
        exact Nat.le_add_right _ 2
      · intro entry member
        rcases List.mem_append.mp member with inEarlier | inLater
        · have deep := indented.deep entry inEarlier
          rw [TraceEntry.indentation_succ] at deep
          omega
        · have deep := inductionHypothesis.2 entry inLater
          rw [TraceEntry.indentation_succ] at deep
          omega

end Indentation

/-! ## Records -/

section Nests

variable {α : Type} {grammar : Option Grammar} {depth : Nat}
  {element part : Element} {outcome : Except Fault α}
  {front back inner rest : List TraceEntry}

theorem Subentries.append
    (first : Subentries grammar depth element front)
    (second : Subentries grammar depth element back) :
    Subentries grammar depth element (front ++ back) := by
  induction second with
  | nil =>
      rw [List.append_nil]
      exact first
  | snoc _ below nested earlierAppended _ =>
      rw [← List.append_assoc]
      exact .snoc (earlierAppended first) below nested

theorem Interrupted.prepend
    (first : Subentries grammar (depth + 1) element front)
    (interrupted : Interrupted grammar depth element back) :
    Interrupted grammar depth element (front ++ back) := by
  cases interrupted with
  | here subentries => exact .here (first.append subentries)
  | within subentries below later =>
      rw [← List.append_assoc]
      exact .within (first.append subentries) below later

/-- The entries that are made on the way to an outcome for an element at the
depth. -/
def Nests
    (grammar : Option Grammar) (depth : Nat) (element : Element)
    (outcome : Except Fault α) (entries : List TraceEntry) : Prop :=
  match outcome with
  | .ok _ => Subentries grammar (depth + 1) element entries
  | .error _ => Interrupted grammar depth element entries

theorem Nests.answered
    {offset : Offset} {finding : Finding}
    (below : RightBelow grammar element part)
    (nested : Subentries grammar (depth + 2) part inner)
    (onward : Nests grammar depth element outcome rest) :
    Nests grammar depth element outcome
      (inner ++ .evaluation (depth + 1) part offset finding :: rest) := by
  have first : Subentries grammar (depth + 1) element
      (inner ++ [.evaluation (depth + 1) part offset finding]) :=
    .snoc .nil below nested
  rw [List.append_cons]
  cases outcome with
  | ok value => exact first.append onward
  | error cause => exact Interrupted.prepend first onward

/-- Of an evaluation at the depth, all entries are there if it has returned, and
otherwise those that had been made by then. -/
structure WellNested
    (grammar : Option Grammar) (depth : Nat) (element : Element)
    (offset : Offset) (finding : α → Finding) (outcome : Except Fault α)
    (entries : List TraceEntry) : Prop where
  completed : ∀ value, outcome = .ok value →
    Completed grammar depth element offset (finding value) entries
  interrupted : ∀ cause, outcome = .error cause →
    Interrupted grammar depth element entries

theorem wellNested_of_error
    {offset : Offset} {finding : α → Finding} {cause : Fault}
    (interrupted : Interrupted grammar depth element inner) :
    WellNested grammar depth element offset finding (.error cause) inner :=
  ⟨fun _ returned => (nomatch returned), fun _ _ => interrupted⟩

theorem wellNested_of_ok
    {offset : Offset} {finding : α → Finding} {value : α}
    (subentries : Subentries grammar (depth + 1) element inner) :
    WellNested grammar depth element offset finding (.ok value)
      (inner ++ [.evaluation depth element offset (finding value)]) := by
  refine ⟨?_, fun _ failed => nomatch failed⟩
  intro other returned
  cases returned
  exact ⟨inner, subentries, rfl⟩

end Nests

/-! ### Greedy matching -/

namespace Greedy

variable {setting : Setting} {room depth : Nat}
  {outcome : Except Fault (Option Offset)} {entries : List TraceEntry}

theorem meets_inquiry_rightBelow (element : Element) (offset : Offset) :
    (inquiry setting element offset).Meets
      (fun question => RightBelow setting.grammar element question.1)
      (fun _ _ => True) (FoundIn fun _ => True) := by
  -- All offsets together are a region that is never left.
  have meets : (inquiry setting element offset).Meets _ (fun _ _ => True)
      (FoundIn fun _ => True) :=
    meets_inquiry_foundIn (.root .tested element)
      (fun _ _ _ _ _ => trivial) (fun _ _ _ _ _ _ => trivial) trivial
  apply Inquiry.meets_widen meets
  rintro ⟨part, start⟩ ⟨⟨occurrence, below, rfl⟩, _⟩
  exact below.rightBelow

/-- If an inquiry asks about elements right below, then the entries of its
evaluations nest. -/
theorem Records.nests
    {inquiry : Inquiry (Element × Offset) (Option Offset) (Option Offset)}
    {element : Element} {goal : Option Offset → Prop}
    (records : Records setting room depth inquiry outcome entries)
    (meets : inquiry.Meets
      (fun question => RightBelow setting.grammar element question.1)
      (fun _ _ => True) goal) :
    Nests setting.grammar depth element outcome entries := by
  induction records generalizing element goal with
  | done => exact Subentries.nil
  | fault => exact .here .nil
  | tooDeep => exact .here .nil
  | @stopped _ _ question _ _ _ _ inner =>
      exact .within .nil meets.1 (inner (meets_inquiry_rightBelow _ _))
  | answered _ _ inner onward =>
      exact .answered meets.1 (inner (meets_inquiry_rightBelow _ _))
        (onward (meets.2 _ trivial))

theorem Records.wellNested
    {question : Element × Offset}
    (records : Records setting room depth (.ask question .done) outcome
      entries) :
    WellNested setting.grammar (depth + 1) question.1 question.2
      (.ofEnd question.2) outcome entries := by
  cases records with
  | tooDeep => exact wellNested_of_error (.here .nil)
  | stopped inner =>
      exact wellNested_of_error (inner.nests (meets_inquiry_rightBelow _ _))
  | answered inner onward =>
      cases onward
      exact wellNested_of_ok (inner.nests (meets_inquiry_rightBelow _ _))

end Greedy

/-! ### Exhaustive matching -/

namespace Exhaustive

variable {setting : Setting} {room : Nat} {active : List Visit}
  {table later : Table} {outcome : Except Fault Ends}
  {entries : List TraceEntry}

theorem meets_inquiry_rightBelow
    (occurrence : Occurrence) (offset : Offset) :
    (inquiry setting occurrence offset).Meets
      (fun question =>
        RightBelow setting.grammar occurrence.element question.1.element)
      (fun _ => Ends.LieIn fun _ => True) (Ends.LieIn fun _ => True) := by
  apply Inquiry.meets_widen
    (meets_inquiry_lieIn (fun _ _ _ _ _ => trivial) trivial)
  intro question asked
  exact asked.1.rightBelow

theorem Records.nests
    {inquiry : Inquiry (Occurrence × Offset) Ends Ends} {element : Element}
    {goal : Ends → Prop}
    (records : Records setting room active table inquiry outcome entries later)
    (meets : inquiry.Meets
      (fun question => RightBelow setting.grammar element question.1.element)
      (fun _ => Ends.LieIn fun _ => True) goal) :
    Nests setting.grammar active.length element outcome entries := by
  have anywhere : ∀ ends : Ends, ends.LieIn fun _ => True :=
    fun _ _ _ => trivial
  induction records generalizing element goal with
  | done => exact Subentries.nil
  | fault => exact .here .nil
  | filed _ _ onward => exact onward (meets.2 _ (anywhere _))
  | underWay _ _ _ onward => exact onward (meets.2 _ (anywhere _))
  | tooDeep => exact .here .nil
  | stopped _ _ _ inner =>
      exact .within .nil meets.1 (inner (meets_inquiry_rightBelow _ _))
  | answered _ _ _ _ inner onward =>
      exact .answered meets.1 (inner (meets_inquiry_rightBelow _ _))
        (onward (meets.2 _ (anywhere _)))

/-- The first visit of a match is a fresh one. -/
theorem Records.wellNested
    {question : Occurrence × Offset}
    (records : Records setting room [] .empty (.ask question .done) outcome
      entries later) :
    WellNested setting.grammar 1 question.1.element question.2 .endsAt outcome
      entries := by
  cases records with
  | filed filed =>
      rw [Table.find?_empty] at filed
      cases filed
  | underWay _ underWay => cases underWay
  | tooDeep => exact wellNested_of_error (.here .nil)
  | stopped _ _ inner =>
      exact wellNested_of_error (inner.nests (meets_inquiry_rightBelow _ _))
  | answered _ _ inner onward =>
      cases onward
      exact wellNested_of_ok (inner.nests (meets_inquiry_rightBelow _ _))

end Exhaustive

end AbnfMatching
