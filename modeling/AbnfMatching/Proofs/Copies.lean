import AbnfMatching.Proofs.Grafts
import AbnfMatching.Proofs.Simulation
import AbnfMatching.Proofs.Soundness

/-!
# Matching a copy of a rule

Matching the right-hand side of a rule in the tree of the rule is compared with
matching a copy of it in a tree of its own. The copy keeps apart what the rule
keeps together: visits of the copy and those of the rule itself are filed under
different visits, which grafting brings together.

If the rule is not left-recursive, no visit in its tree is ever met again while
it is under way. What is filed for such a visit is therefore determined by what
is filed for the visits below it, and matching the copy comes to the same end
set if it makes the visit once more. This takes more levels, so that matching
the copy may become too deep.
-/

namespace AbnfMatching.Exhaustive

/-- The nesting limit has been reached. -/
def IsTooDeep (cause : Fault) : Prop :=
  ∃ depth, cause = .tooDeep depth

/-- How the memory of matching a rule relates to that of matching its copy. -/
structure Mirrors
    (setting : Setting) (key : Octets) (rule : Rule)
    (original copy : Memory) : Prop where
  grafted : ∀ visit ends, copy.table.find? visit = some ends →
    original.table.find? (visit.graft key) = some ends
  shared : ∀ visit ends, visit.tree.graft key ≠ .rule key →
    original.table.find? visit = some ends →
    copy.table.find? visit = some ends
  closed : ∀ occurrence offset ends,
    occurrence.Placed setting.grammar rule.element →
    offset.toNat ≤ setting.input.size →
    occurrence.tree.graft key = .rule key →
    original.table.find? ((occurrence.visitAt offset).graft key) =
      some ends →
    (inquiry setting occurrence offset).Yields
      (fun question reply =>
        original.table.find?
          ((question.1.visitAt question.2).graft key) = some reply)
      ends
  sound : FiledWell setting.grammar rule.element
    (fun part start => Bracketed setting (fun _ _ _ => False) (part, start))
    original

section Mirrors

variable {setting : Setting} {key : Octets} {rule : Rule}
  {original copy : Memory}

theorem mirrors_empty
    {trace trace' : Trace} :
    Mirrors setting key rule ⟨.empty, trace⟩ ⟨.empty, trace'⟩ := by
  refine ⟨?_, ?_, ?_, filedWell_empty⟩
  · intro visit ends filed
    rw [Table.find?_empty] at filed
    cases filed
  · intro visit ends _ filed
    rw [Table.find?_empty] at filed
    cases filed
  · intro occurrence offset ends _ _ _ filed
    rw [Table.find?_empty] at filed
    cases filed

/-- What is filed for a visit of the copy may already be filed for the visit to
which it is grafted. -/
theorem Mirrors.file_copy
    {visit : Visit} {ends : Ends} {copy' : Memory}
    (mirrors : Mirrors setting key rule original copy)
    (table : copy'.table = copy.table.insert visit ends)
    (within : visit.tree.graft key = .rule key)
    (filed : original.table.find? (visit.graft key) = some ends) :
    Mirrors setting key rule original copy' := by
  refine ⟨?_, ?_, mirrors.closed, mirrors.sound⟩
  · intro other otherEnds otherFiled
    rw [table, Table.find?_insert] at otherFiled
    split at otherFiled
    · next same =>
        rw [← same, filed]
        exact otherFiled
    · exact mirrors.grafted other otherEnds otherFiled
  · intro other otherEnds foreign otherFiled
    have different : visit ≠ other := by
      intro same
      subst same
      exact foreign within
    rw [table, Table.find?_insert, if_neg different]
    exact mirrors.shared other otherEnds foreign otherFiled

/-- A result may be filed for a visit and for the visit to which it is grafted,
if nothing has been filed there and the visits below account for it. -/
theorem Mirrors.file_both
    {occurrence : Occurrence} {offset : Offset} {ends : Ends}
    {original' copy' : Memory}
    (mirrors : Mirrors setting key rule original copy)
    (originalTable : original'.table =
      original.table.insert ((occurrence.visitAt offset).graft key) ends)
    (copyTable : copy'.table =
      copy.table.insert (occurrence.visitAt offset) ends)
    (unfiled : original.table.find?
      ((occurrence.visitAt offset).graft key) = none)
    (placed : (occurrence.graft key).Placed setting.grammar rule.element)
    (sound : Bracketed setting (fun _ _ _ => False) (occurrence, offset)
      ends)
    (closed : ∀ other,
      other.Placed setting.grammar rule.element →
      other.graft key = occurrence.graft key →
      other.tree.graft key = .rule key →
      (inquiry setting other offset).Yields
        (fun question reply =>
          original.table.find?
            ((question.1.visitAt question.2).graft key) = some reply)
        ends)
    (copied : Copied setting.grammar key rule) :
    Mirrors setting key rule original' copy' := by
  have grows : ∀ visit found, original.table.find? visit = some found →
      original'.table.find? visit = some found := by
    intro visit found filed
    have different : (occurrence.visitAt offset).graft key ≠ visit := by
      intro same
      subst same
      rw [unfiled] at filed
      cases filed
    rw [originalTable, Table.find?_insert, if_neg different]
    exact filed
  refine ⟨?_, ?_, ?_, ?_⟩
  · intro visit found filed
    rw [copyTable, Table.find?_insert] at filed
    split at filed
    · next same =>
        rw [← same, originalTable, Table.find?_insert, if_pos rfl]
        exact filed
    · exact grows _ _ (mirrors.grafted visit found filed)
  · intro visit found foreign filed
    rw [originalTable, Table.find?_insert] at filed
    split at filed
    · next same =>
        have own : occurrence.visitAt offset = visit := by
          apply Visit.eq_of_graft foreign
          rw [same, Visit.graft_of_foreign foreign]
        rw [copyTable, Table.find?_insert, if_pos own]
        exact filed
    · next different =>
        have notOwn : occurrence.visitAt offset ≠ visit := by
          intro same
          subst same
          exact different (Visit.graft_of_foreign foreign)
        rw [copyTable, Table.find?_insert, if_neg notOwn]
        exact mirrors.shared visit found foreign filed
  · intro other start found otherPlaced inside within filed
    rw [originalTable, Table.find?_insert] at filed
    split at filed
    · next same =>
        obtain ⟨sameOccurrence, rfl⟩ :=
          (otherPlaced.graft copied).unique_of_visitAt placed same.symm
        cases filed
        exact (closed other otherPlaced sameOccurrence within).mono
          fun _ _ isFiled => grows _ _ isFiled
    · exact (mirrors.closed other start found otherPlaced inside within
        filed).mono fun _ _ isFiled => grows _ _ isFiled
  · intro other start found otherPlaced filed
    rw [originalTable, Table.find?_insert] at filed
    split at filed
    · next same =>
        obtain ⟨rfl, rfl⟩ := placed.unique_of_visitAt otherPlaced same
        cases filed
        exact sound
    · exact mirrors.sound other start found otherPlaced filed

end Mirrors

section Copies

variable {setting : Setting} {key : Octets} {rule : Rule}
  {original copy : Memory} {room : Nat} {active : List Visit}
  {occurrence : Occurrence} {offset : Offset}

/-- No visit in the tree of the rule or of its copy is met again while it is
under way. -/
theorem not_under_way_of_graft
    (copied : Copied setting.grammar key rule)
    (free : ¬ LeftRecursive setting.grammar rule)
    (placed : occurrence.Placed setting.grammar rule.element)
    (encloses : Encloses setting.grammar rule.element active occurrence
      offset)
    (within : occurrence.tree.graft key = .rule key) :
    occurrence.visitAt offset ∉ active := by
  intro again
  have cycle := encloses.cycle placed again
  exact free (leftRecursive_of_cycle copied cycle within)

/-- If matching the copy has filed the visit, it has filed the same result. -/
theorem repeats_of_fresh
    {ends : Ends}
    (mirrors : Mirrors setting key rule original copy)
    (filed : original.table.find? ((occurrence.visitAt offset).graft key) =
      some ends)
    (fresh : copy.table.find? (occurrence.visitAt offset) = none →
      Tallies (Mirrors setting key rule) IsTooDeep (· = ·)
        (.ok ends, original)
        (perform (visit setting room active occurrence offset) copy)) :
    Tallies (Mirrors setting key rule) IsTooDeep (· = ·)
      (.ok ends, original)
      (perform (visit setting room active occurrence offset) copy) := by
  cases known : copy.table.find? (occurrence.visitAt offset) with
  | some found =>
      have same := (mirrors.grafted _ _ known).symm.trans filed
      cases same
      rw [perform_visit_of_filed known]
      exact .values mirrors rfl
  | none =>
      exact fresh known

/-- If a visit in the tree of the rule is filed, matching the copy comes to the
same result at the visit that is grafted to it, as far as it comes to a
result. -/
theorem visit_repeats
    {ends : Ends}
    (fits : setting.Addressable)
    (copied : Copied setting.grammar key rule)
    (free : ¬ LeftRecursive setting.grammar rule)
    (mirrors : Mirrors setting key rule original copy)
    (placed : occurrence.Placed setting.grammar rule.element)
    (inside : offset.toNat ≤ setting.input.size)
    (encloses : Encloses setting.grammar rule.element active occurrence
      offset)
    (within : occurrence.tree.graft key = .rule key)
    (filed : original.table.find? ((occurrence.visitAt offset).graft key) =
      some ends) :
    Tallies (Mirrors setting key rule) IsTooDeep (· = ·)
      (.ok ends, original)
      (perform (visit setting room active occurrence offset) copy) := by
  induction room generalizing copy active occurrence offset ends with
  | zero =>
      refine repeats_of_fresh mirrors filed ?_
      intro unfiled
      rw [perform_visit_zero unfiled
        (not_under_way_of_graft copied free placed encloses within)]
      exact .excused ⟨_, rfl⟩
  | succ room inductionHypothesis =>
      refine repeats_of_fresh mirrors filed ?_
      intro unfiled
      rw [perform_visit_succ unfiled
        (not_under_way_of_graft copied free placed encloses within),
        perform_evaluate]
      have repeated : Tallies (Mirrors setting key rule) IsTooDeep (· = ·)
          (.ok ends, original)
          (perform
            ((inquiry setting occurrence offset).carryOut fun question =>
              visit setting room (occurrence.visitAt offset :: active)
                question.1 question.2) copy) := by
        refine Inquiry.carryOut_repeats
          (meets_inquiry (fun _ _ _ => False) fits inside)
          (mirrors.closed occurrence offset ends placed inside within filed)
          ?_ ?_ mirrors
        · intro question reply asks isFiled
          have questionPlaced := (placed.below asks.below).graft copied
          exact mirrors.sound (question.1.graft key) question.2 reply
            questionPlaced isFiled
        · intro question reply later asks isFiled laterMirrors
          -- Outside the tree of the rule, both have filed the same visits.
          by_cases inTree : question.1.tree.graft key = .rule key
          · exact inductionHypothesis laterMirrors
              (placed.below asks.below) asks.inside
              (encloses.asked placed asks) inTree isFiled
          · have sameVisit :
                (question.1.visitAt question.2).graft key =
                  question.1.visitAt question.2 :=
              Visit.graft_of_foreign inTree
            rw [sameVisit] at isFiled
            have alsoFiled := laterMirrors.shared _ _ inTree isFiled
            rw [perform_visit_of_filed alsoFiled]
            exact .values laterMirrors rfl
      generalize perform
        ((inquiry setting occurrence offset).carryOut fun question =>
          visit setting room (occurrence.visitAt offset :: active)
            question.1 question.2) copy = performed at repeated ⊢
      cases repeated with
      | values later agreed =>
          cases agreed
          exact .values (later.file_copy table_completed within filed) rfl
      | excused pardoned => exact .excused pardoned

/-- The result that matching the rule files for a visit in its tree is accounted
for by what it has filed for the visits below, for the occurrence itself as well
as for one that is grafted to it. -/
theorem yields_of_original
    {ends : Ends} {later : Memory}
    (fits : setting.Addressable)
    (copied : Copied setting.grammar key rule)
    (free : ¬ LeftRecursive setting.grammar rule)
    (sound : FiledWell setting.grammar rule.element
      (fun part start =>
        Bracketed setting (fun _ _ _ => False) (part, start)) original)
    (placed : occurrence.Placed setting.grammar rule.element)
    (inside : offset.toNat ≤ setting.input.size)
    {whole : Occurrence} (same : occurrence.graft key = whole)
    (encloses : Encloses setting.grammar rule.element active whole offset)
    (within : occurrence.tree.graft key = .rule key)
    (returned : perform
      ((inquiry setting whole offset).carryOut fun question =>
        visit setting room (whole.visitAt offset :: active)
          question.1 question.2) original = (.ok ends, later)) :
    (inquiry setting occurrence offset).Yields
      (fun question reply =>
        later.table.find?
          ((question.1.visitAt question.2).graft key) = some reply)
      ends := by
  subst same
  rw [carryOut_inquiry_graft] at returned
  have graftPlaced := placed.graft copied
  refine Inquiry.yields_lasting
    (fun question reply memory => memory.table.find?
      ((question.1.visitAt question.2).graft key) = some reply)
    (meets_inquiry (fun _ _ _ => False) fits inside) ?_ ?_ ?_ sound returned
  · intro question asks
    exact visit_sound room _ fits
      ((placed.below asks.below).graft copied) asks.inside
  · intro question before reply after asks answered
    rcases filed_of_visit answered with filed | again
    · exact filed
    · have cycle :=
        encloses.cycle_of_asked graftPlaced asks.graft again
      have graftWithin :
          (occurrence.graft key).tree.graft key = .rule key :=
        Tree.graft_of_within within
      exact absurd (leftRecursive_of_cycle copied cycle graftWithin) free
  · intro question reply other
    exact visit_keeps (Or.inl (Option.some_ne_none reply))

/-- Visits that are filed or under way for the rule are so for its copy, or
matching the copy makes up for them. -/
theorem simulates_of_fresh
    (fits : setting.Addressable)
    (copied : Copied setting.grammar key rule)
    (free : ¬ LeftRecursive setting.grammar rule)
    (placed : occurrence.Placed setting.grammar rule.element)
    (inside : offset.toNat ≤ setting.input.size)
    (encloses : Encloses setting.grammar rule.element active occurrence
      offset)
    (fresh : ∀ original copy, Mirrors setting key rule original copy →
      original.table.find? ((occurrence.graft key).visitAt offset) = none →
      copy.table.find? (occurrence.visitAt offset) = none →
      (occurrence.graft key).visitAt offset ∉
        active.map (Visit.graft key) →
      occurrence.visitAt offset ∉ active →
      Tallies (Mirrors setting key rule) IsTooDeep (· = ·)
        (perform (visit setting room (active.map (Visit.graft key))
          (occurrence.graft key) offset) original)
        (perform (visit setting room active occurrence offset) copy)) :
    Simulates (Mirrors setting key rule) IsTooDeep
      (visit setting room (active.map (Visit.graft key))
        (occurrence.graft key) offset)
      (visit setting room active occurrence offset) (· = ·) := by
  intro original copy mirrors
  cases filed :
      original.table.find? ((occurrence.graft key).visitAt offset) with
  | some ends =>
      rw [perform_visit_of_filed filed]
      by_cases within : occurrence.tree.graft key = .rule key
      · exact visit_repeats fits copied free mirrors placed inside encloses
          within filed
      · have sameVisit :
            (occurrence.graft key).visitAt offset =
              occurrence.visitAt offset := by
          rw [Occurrence.visitAt_graft]
          exact Visit.graft_of_foreign within
        rw [sameVisit] at filed
        rw [perform_visit_of_filed
          (mirrors.shared _ ends within filed)]
        exact .values mirrors rfl
  | none =>
      have unfiled :
          copy.table.find? (occurrence.visitAt offset) = none := by
        cases known : copy.table.find? (occurrence.visitAt offset) with
        | none => rfl
        | some found =>
            cases filed.symm.trans (mirrors.grafted _ found known)
      by_cases again : occurrence.visitAt offset ∈ active
      · have graftAgain : (occurrence.graft key).visitAt offset ∈
            active.map (Visit.graft key) :=
          List.mem_map_of_mem again
        rw [perform_visit_of_under_way filed graftAgain,
          perform_visit_of_under_way unfiled again]
        exact .values mirrors rfl
      · refine fresh original copy mirrors filed unfiled ?_ again
        intro graftAgain
        by_cases within : occurrence.tree.graft key = .rule key
        · have cycle := (encloses.graft copied).cycle
            (placed.graft copied) graftAgain
          have graftWithin :
              (occurrence.graft key).tree.graft key = .rule key :=
            Tree.graft_of_within within
          exact free (leftRecursive_of_cycle copied cycle graftWithin)
        · obtain ⟨visit, member, same⟩ := List.mem_map.mp graftAgain
          have own : visit = occurrence.visitAt offset :=
            Visit.eq_of_graft within same
          exact again (own ▸ member)

/-- Matching a rule that is not left-recursive and matching its copy come to
the same result, unless matching the copy becomes too deep. -/
theorem visit_simulates
    (room : Nat) (fits : setting.Addressable)
    (copied : Copied setting.grammar key rule)
    (free : ¬ LeftRecursive setting.grammar rule)
    (placed : occurrence.Placed setting.grammar rule.element)
    (inside : offset.toNat ≤ setting.input.size)
    (encloses : Encloses setting.grammar rule.element active occurrence
      offset) :
    Simulates (Mirrors setting key rule) IsTooDeep
      (visit setting room (active.map (Visit.graft key))
        (occurrence.graft key) offset)
      (visit setting room active occurrence offset) (· = ·) := by
  induction room generalizing active occurrence offset with
  | zero =>
      refine simulates_of_fresh fits copied free placed inside encloses ?_
      intro original copy _ _ unfiled _ notUnderWay
      rw [perform_visit_zero unfiled notUnderWay]
      exact .excused ⟨_, rfl⟩
  | succ room inductionHypothesis =>
      refine simulates_of_fresh fits copied free placed inside encloses ?_
      intro original copy mirrors graftUnfiled unfiled graftNotUnderWay
        notUnderWay
      have graftPlaced := placed.graft copied
      have answered :
          Simulates (Mirrors setting key rule) IsTooDeep
            ((inquiry setting occurrence offset).carryOut fun question =>
              visit setting room
                ((occurrence.graft key).visitAt offset ::
                  active.map (Visit.graft key))
                (question.1.graft key) question.2)
            ((inquiry setting occurrence offset).carryOut fun question =>
              visit setting room (occurrence.visitAt offset :: active)
                question.1 question.2)
            fun value value' => value = value' ∧
              value.Between
                (Unfolds setting (fun _ _ _ => False) occurrence offset)
                (spanReach setting occurrence offset) := by
        refine Inquiry.carryOut_simulates
          (meets_inquiry (fun _ _ _ => False) fits inside) ?_
        intro question asks
        have partPlaced := placed.below asks.below
        exact simulates_upholds
          (inductionHypothesis partPlaced asks.inside
            (encloses.asked placed asks))
          (visit_sound room _ fits (partPlaced.graft copied) asks.inside)
          fun _ _ mirrors => mirrors.sound
      have tallies := answered original copy mirrors
      rw [perform_visit_succ graftUnfiled graftNotUnderWay,
        perform_visit_succ unfiled notUnderWay, perform_evaluate,
        perform_evaluate, carryOut_inquiry_graft]
      generalize performed : perform
        ((inquiry setting occurrence offset).carryOut fun question =>
          visit setting room
            ((occurrence.graft key).visitAt offset ::
              active.map (Visit.graft key))
            (question.1.graft key) question.2) original = result at tallies ⊢
      generalize perform
        ((inquiry setting occurrence offset).carryOut fun question =>
          visit setting room (occurrence.visitAt offset :: active)
            question.1 question.2) copy = result' at tallies ⊢
      cases tallies with
      | faults => exact .faults
      | excused pardoned => exact .excused pardoned
      | @values ends _ later _ laterMirrors agreed =>
          obtain ⟨rfl, between⟩ := agreed
          -- The visit is under way meanwhile, so nothing is filed for it.
          have keepsUnfiled : ∀ question : Occurrence × Offset, True →
              Upholds
                (fun memory => memory.table.find?
                  ((occurrence.graft key).visitAt offset) = none)
                (visit setting room
                  ((occurrence.graft key).visitAt offset ::
                    active.map (Visit.graft key))
                  (question.1.graft key) question.2) fun _ => True :=
            fun _ _ => visit_keeps (Or.inr List.mem_cons_self)
          have stillUnfiled := Inquiry.carryOut_upholds
            (inquiry setting occurrence offset).meets_trivial keepsUnfiled
            original graftUnfiled
          rw [performed] at stillUnfiled
          refine .values (laterMirrors.file_both table_completed
            table_completed stillUnfiled.1 (placed.graft copied) ?_ ?_
            copied) rfl
          · exact between.mono (fun _ impossible => impossible.elim)
              fun _ spans => spans
          · intro other otherPlaced same within
            have returned : perform
                ((inquiry setting (occurrence.graft key) offset).carryOut
                  fun question =>
                    visit setting room
                      ((occurrence.graft key).visitAt offset ::
                        active.map (Visit.graft key))
                      question.1 question.2) original = (.ok ends, later) := by
              rw [carryOut_inquiry_graft]
              exact performed
            exact yields_of_original fits copied free mirrors.sound
              otherPlaced inside same (encloses.graft copied) within returned

end Copies

end AbnfMatching.Exhaustive
