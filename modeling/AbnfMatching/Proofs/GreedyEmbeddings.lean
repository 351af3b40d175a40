import AbnfMatching.Proofs.Embeddings
import AbnfMatching.Proofs.GreedyRange

/-!
# Greedy matching at the end of a longer input

Greedy matching commits itself to what comes first, so that octets after an
input may change everything. Octets before it change nothing: at the end of a
longer input, each step finds the displaced end. The rounds of a repetition are
counted against the length of the whole input, but a repetition that goes on has
moved forward, and it settles at the end of the input before the rounds are used
up.
-/

namespace AbnfMatching.Embedding

open Greedy

variable {embedding : Embedding}

/-- Two greedy computations of which the second one finds the displaced end. -/
abbrev InStep
    (embedding : Embedding) (left right : GreedyM (Option Offset)) : Prop :=
  Simulates (fun _ _ => True) (fun _ => False) left right
    fun found found' => found' = found.map (displace embedding.lead)

/-- In addition, the first one finds an end between the start and the end of the
input. -/
abbrev InStepFrom
    (embedding : Embedding) (start : Offset)
    (left right : GreedyM (Option Offset)) : Prop :=
  Simulates (fun _ _ => True) (fun _ => False) left right
    fun found found' => found' = found.map (displace embedding.lead) ∧
      EndsInside embedding.inner start found

section Level

variable {item item' : Element → Offset → GreedyM (Option Offset)}
  {parts : List Element} {start : Offset}

theorem inStep_inTurn
    (items : ∀ part ∈ parts, ∀ start : Offset,
      start.toNat ≤ embedding.inner.input.size →
      embedding.InStepFrom start (item part start)
        (item' part (displace embedding.lead start)))
    (inside : start.toNat ≤ embedding.inner.input.size) :
    embedding.InStep (inTurn item parts start)
      (inTurn item' parts (displace embedding.lead start)) := by
  induction parts generalizing start with
  | nil =>
      exact simulates_pure rfl
  | cons head tail inductionHypothesis =>
      refine simulates_bind (items head List.mem_cons_self start inside) ?_
      rintro found _ ⟨rfl, ends⟩
      cases found with
      | none =>
          exact simulates_pure rfl
      | some middle =>
          exact inductionHypothesis
            (fun part member => items part (List.mem_cons_of_mem head member))
            (ends middle rfl).2

theorem inStep_firstOf
    (items : ∀ part ∈ parts, embedding.InStepFrom start (item part start)
      (item' part (displace embedding.lead start))) :
    embedding.InStep (firstOf item parts start)
      (firstOf item' parts (displace embedding.lead start)) := by
  induction parts with
  | nil =>
      exact simulates_pure rfl
  | cons head tail inductionHypothesis =>
      refine simulates_bind (items head List.mem_cons_self) ?_
      rintro found _ ⟨rfl, -⟩
      cases found with
      | none =>
          exact inductionHypothesis fun part member =>
            items part (List.mem_cons_of_mem head member)
      | some stop =>
          exact simulates_pure rfl

theorem settle_displaced {lead owed : Nat} {offset : Offset} :
    settle owed (displace lead offset) =
      (settle owed offset).map (displace lead) := by
  unfold settle
  split <;> rfl

/-- The rounds left are the same, or there are enough of them on either side to
reach the end of the input. -/
def Suffices
    (embedding : Embedding) (rounds rounds' : Nat) (start : Offset) : Prop :=
  rounds = rounds' ∨
    embedding.inner.input.size < start.toNat + rounds ∧
      embedding.inner.input.size < start.toNat + rounds'

theorem inStep_again
    {round round' : Offset → GreedyM (Option Offset)} {rounds rounds' : Nat}
    {owed : Nat} (atEnd : embedding.AtEnd)
    (items : ∀ start : Offset, start.toNat ≤ embedding.inner.input.size →
      embedding.InStepFrom start (round start)
        (round' (displace embedding.lead start)))
    (inside : start.toNat ≤ embedding.inner.input.size)
    (enough : embedding.Suffices rounds rounds' start) :
    embedding.InStep (again embedding.inner round rounds owed start)
      (again embedding.outer round' rounds' owed
        (displace embedding.lead start)) := by
  induction rounds generalizing rounds' owed start with
  | zero =>
      obtain rfl : 0 = rounds' := by
        rcases enough with same | ⟨left, _⟩
        · exact same
        · omega
      exact simulates_pure settle_displaced
  | succ rounds inductionHypothesis =>
      obtain ⟨rounds', rfl⟩ : ∃ less, rounds' = less + 1 :=
        Nat.exists_eq_add_one_of_ne_zero
          (by rcases enough with same | ⟨_, right⟩ <;> omega)
      refine simulates_bind (items start inside) ?_
      rintro found _ ⟨rfl, ends⟩
      cases found with
      | none =>
          exact simulates_pure settle_displaced
      | some stop =>
          obtain ⟨ordered, stopInside⟩ := ends stop rfl
          have exhausted :
              embedding.outer.input.size ≤
                  (displace embedding.lead stop).toNat ↔
                embedding.inner.input.size ≤ stop.toNat := by
            rw [toNat_displaced stopInside, ← atEnd]
            omega
          dsimp only [Option.map_some]
          simp only [exhausted, displace_injective.eq_iff]
          by_cases reached : embedding.inner.input.size ≤ stop.toNat
          · rw [if_pos reached, if_pos reached]
            exact simulates_pure settle_displaced
          · rw [if_neg reached, if_neg reached]
            by_cases idle : stop = start
            · rw [if_pos idle, if_pos idle]
              exact simulates_pure rfl
            · rw [if_neg idle, if_neg idle]
              -- The round has consumed at least one octet.
              have moved : start.toNat < stop.toNat :=
                UInt64.lt_iff_toNat_lt.mp
                  (UInt64.lt_of_le_of_ne ordered (Ne.symm idle))
              refine inductionHypothesis stopInside ?_
              rcases enough with same | ⟨left, right⟩
              · exact Or.inl (by omega)
              · exact Or.inr ⟨by omega, by omega⟩

end Level

section Evaluate

variable {element : Element} {offset : Offset}

theorem inStep_level
    {below below' : Element → Offset → GreedyM (Option Offset)}
    (atEnd : embedding.AtEnd) (within : embedding.within element)
    (inside : offset.toNat ≤ embedding.inner.input.size)
    (items : ∀ part, embedding.within part → ∀ start : Offset,
      start.toNat ≤ embedding.inner.input.size →
      embedding.InStepFrom start (below part start)
        (below' part (displace embedding.lead start))) :
    embedding.InStep (level embedding.inner below element offset)
      (level embedding.outer below' element
        (displace embedding.lead offset)) := by
  have childWithin : ∀ part ∈ element.children, embedding.within part :=
    fun part => embedding.parts element part within
  unfold level
  cases element with
  | terminal value =>
      obtain ⟨found, found', innerEnd, outerEnd, ends⟩ :=
        terminalEnd_displaced within inside
      dsimp only
      rw [innerEnd, outerEnd]
      rcases ends with ⟨rfl, _⟩ | ⟨_, stop, _, beyond⟩
      · exact simulates_pure rfl
      · exact absurd atEnd beyond.not_atEnd
  | reference name =>
      dsimp only
      rw [resolve_outer]
      rcases resolved : embedding.inner.resolve name with cause | rule
      · exact simulates_throw
      · have meaning := embedding.meanings name rule within
          (ruleOf_of_resolve resolved)
        exact simulates_mono (items rule.element meaning offset inside)
          fun _ _ agreed => agreed.1
  | sequence parts =>
      exact inStep_inTurn
        (fun part member => items part (childWithin part member)) inside
  | alternation branches =>
      exact inStep_firstOf fun part member =>
        items part (childWithin part member) offset inside
  | option body =>
      have bodyWithin := childWithin body (List.mem_singleton_self body)
      refine simulates_bind (items body bodyWithin offset inside) ?_
      rintro found _ ⟨rfl, -⟩
      cases found <;> exact simulates_pure rfl
  | repetition bounds body =>
      have bodyWithin := childWithin body (List.mem_singleton_self body)
      refine inStep_again atEnd (items body bodyWithin) inside ?_
      have fits := embedding.fits
      cases limit : bounds.maximum with
      | some maximum =>
          exact Or.inl (by simp [Bounds.rounds, limit])
      | none =>
          simp only [Suffices, Bounds.rounds, limit, Option.getD_none]
          exact Or.inr ⟨by omega, by omega⟩

theorem inStep_evaluate
    {room depth : Nat} (atEnd : embedding.AtEnd)
    (within : embedding.within element)
    (inside : offset.toNat ≤ embedding.inner.input.size) :
    embedding.InStepFrom offset
      (evaluate embedding.inner room depth element offset)
      (evaluate embedding.outer room depth element
        (displace embedding.lead offset)) := by
  refine simulates_upholds ?_
    (evaluate_upholds_inside room depth embedding.addressable_inner inside)
    fun _ _ _ => trivial
  induction room generalizing depth element offset with
  | zero =>
      exact simulates_throw
  | succ room inductionHypothesis =>
      refine simulates_bind (inStep_level atEnd within inside ?_) ?_
      · intro part partWithin start startInside
        exact simulates_upholds (inductionHypothesis partWithin startInside)
          (evaluate_upholds_inside room (depth + 1)
            embedding.addressable_inner startInside)
          fun _ _ _ => trivial
      · rintro found _ rfl
        exact simulates_bind (simulates_note _ _) fun _ _ _ =>
          simulates_pure rfl

/-- At the end of a longer input, greedy matching comes to the displaced end or
to the same fault. -/
theorem greedy_run_displaced
    {limit : Nat} (atEnd : embedding.AtEnd)
    (within : embedding.within element)
    (inside : offset.toNat ≤ embedding.inner.input.size) :
    (Greedy.run embedding.outer limit element
        (displace embedding.lead offset)).1 =
      (Greedy.run embedding.inner limit element offset).1.map
        (Option.map (displace embedding.lead)) := by
  have inStep : embedding.InStepFrom offset
      (evaluate embedding.inner limit 0 element offset)
      (evaluate embedding.outer limit 0 element
        (displace embedding.lead offset)) :=
    inStep_evaluate atEnd within inside
  have tallies := inStep #[] #[] trivial
  change (perform (evaluate embedding.outer limit 0 element
      (displace embedding.lead offset)) #[]).1 =
    (perform (evaluate embedding.inner limit 0 element offset) #[]).1.map _
  generalize perform (evaluate embedding.inner limit 0 element offset) #[] =
    performed at tallies ⊢
  generalize perform (evaluate embedding.outer limit 0 element
    (displace embedding.lead offset)) #[] = performed' at tallies ⊢
  cases tallies with
  | values _ agreed => exact congrArg Except.ok agreed.1
  | faults => rfl
  | excused pardoned => exact pardoned.elim

end Evaluate

end AbnfMatching.Embedding
