import AbnfMatching.Proofs.Nodes
import AbnfMatching.Proofs.Stoppages

/-!
# Offsets beyond the input

A match at an offset beyond the input goes nowhere: nothing but the empty string
can be matched there. The end of a terminal is all that is compared with the
size of the input, however, and it is counted in 64-bit arithmetic. A terminal
that is long enough for its end to wrap around into the input passes the test,
and then the slice that it is to be compared with does not exist. Apart from
this, a match beyond the input is harmless.
-/

namespace AbnfMatching

open Relation (ReflTransGen)

/-! ## Terminals beyond the input -/

/-- The end of the terminal, counted from the offset in 64-bit arithmetic, lies
within an input of the size. -/
def Terminal.SeemsToFit
    (value : Terminal) (size : Nat) (offset : Offset) : Prop :=
  (offset.toNat + value.length) % UInt64.size ≤ size

instance (value : Terminal) (size : Nat) (offset : Offset) :
    Decidable (value.SeemsToFit size offset) :=
  inferInstanceAs (Decidable (_ ≤ size))

theorem toNat_add_ofNat_eq_mod (offset : Offset) (length : Nat) :
    (offset + UInt64.ofNat length).toNat =
      (offset.toNat + length) % UInt64.size := by
  simp [UInt64.toNat_add, UInt64.toNat_ofNat']

section Beyond

variable {setting : Setting} {offset : Offset}

/-- From beyond the input, only the end of a very long terminal seems to fit. -/
theorem Terminal.SeemsToFit.size_le
    {value : Terminal} {size : Nat}
    (seems : value.SeemsToFit size offset) (beyond : size < offset.toNat) :
    UInt64.size ≤ offset.toNat + value.length := by
  by_contra short
  unfold SeemsToFit at seems
  rw [Nat.mod_eq_of_lt (by omega)] at seems
  omega

/-- Beyond the input no terminal matches. One that seems to fit is a fault. -/
theorem Setting.terminalEnd_beyond
    (value : Terminal) (beyond : setting.input.size < offset.toNat) :
    setting.terminalEnd value offset =
      if value.SeemsToFit setting.input.size offset then .error .outOfRange
      else .ok none := by
  have counted := toNat_add_ofNat_eq_mod offset value.length
  unfold terminalEnd
  dsimp only
  rw [if_pos beyond, counted]
  by_cases seems : value.SeemsToFit setting.input.size offset
  · rw [if_pos seems, if_neg (Nat.not_lt.mpr seems)]
  · rw [if_neg seems, if_pos (Nat.lt_of_not_le seems)]

/-- No match leaves an offset beyond the input. -/
theorem Setting.retains_beyond (beyond : setting.input.size < offset.toNat) :
    setting.Retains (· = offset) := by
  intro value start stop same found
  subst same
  rw [terminalEnd_beyond value beyond] at found
  split at found <;> cases found

theorem Setting.denies_outOfRange_iff
    {element : Element} (beyond : setting.input.size < offset.toNat) :
    setting.Denies offset element .outOfRange ↔
      ∃ value, element = .terminal value ∧
        value.SeemsToFit setting.input.size offset := by
  constructor
  · intro denies
    cases denies with
    | @slice value _ failed =>
        refine ⟨value, rfl, ?_⟩
        by_contra exceeds
        rw [terminalEnd_beyond value beyond, if_neg exceeds] at failed
        cases failed
    | rule failed =>
        exact absurd (isUnresolved_of_resolve failed) id
  · intro overlong
    obtain ⟨value, rfl, seems⟩ := overlong
    apply Denies.slice
    rw [terminalEnd_beyond value beyond, if_pos seems]

end Beyond

/-- Ends that do not leave an offset are that offset at most. -/
theorem Ends.offsets_of_lieIn_single
    {ends : Ends} {offset : Offset} (lies : ends.LieIn (· = offset)) :
    ends.offsets = [] ∨ ends.offsets = [offset] := by
  have ascending := ends.ascending
  have each : ∀ stop ∈ ends.offsets, stop = offset := lies
  match shape : ends.offsets with
  | [] =>
      exact Or.inl rfl
  | [sole] =>
      rw [shape] at each
      rw [each sole List.mem_cons_self]
      exact Or.inr rfl
  | first :: second :: rest =>
      rw [shape] at ascending each
      have sameFirst := each first (by simp)
      have sameSecond := each second (by simp)
      have less := List.rel_of_pairwise_cons ascending
        (List.mem_cons_self (a := second))
      rw [sameFirst, sameSecond] at less
      exact absurd less (UInt64.lt_irrefl offset)

/-! ## Terminals in reach -/

/-- The terminal stands in the element or in a rule in its reach. -/
def TerminalInReach
    (grammar : Option Grammar) (element : Element) (value : Terminal) : Prop :=
  .terminal value ∈ element.nodes ∨
    ∃ rule, Reaches grammar element rule ∧
      .terminal value ∈ rule.element.nodes

theorem TerminalInReach.of_below
    {grammar : Option Grammar} {occurrence part : Occurrence}
    {value : Terminal}
    (below : Below grammar occurrence part)
    (inReach : TerminalInReach grammar part.element value) :
    TerminalInReach grammar occurrence.element value := by
  rcases inReach with member | ⟨rule, reaches, member⟩
  · cases below with
    | constituent isPart =>
        exact Or.inl <| Element.nodes_subset_of_mem_children
          (Occurrence.element_mem_children isPart) member
    | @meaning name rule shape meaning =>
        have mentioned : name ∈ occurrence.element.mentions := by
          rw [shape]
          exact List.mem_singleton_self name
        exact Or.inr ⟨rule, .directly mentioned meaning, member⟩
  · exact Or.inr ⟨rule, reaches.of_below below, member⟩

theorem terminalInReach_self
    {grammar : Option Grammar} (value : Terminal) :
    TerminalInReach grammar (.terminal value) value :=
  Or.inl (List.mem_singleton_self _)

/-! ## Greedy matching -/

namespace Greedy

variable {setting : Setting} {limit : Nat} {element : Element}
  {offset : Offset}

/-- The match comes to evaluate the terminal. -/
def Tries
    (setting : Setting) (limit : Nat) (element : Element) (offset : Offset)
    (value : Terminal) : Prop :=
  ∃ call, ReflTransGen (Call.Makes setting) (.first limit element offset) call ∧
    0 < call.room ∧ call.element = .terminal value

/-- What is known of a call when the match of an element starts at an offset
that is never left. -/
structure Call.Stays
    (setting : Setting) (element : Element) (origin : Offset) (call : Call) :
    Prop where
  offset : call.offset = origin
  inReach : ∀ value, TerminalInReach setting.grammar call.element value →
    TerminalInReach setting.grammar element value

theorem Call.stays
    {call : Call}
    (beyond : setting.input.size < offset.toNat)
    (calls : ReflTransGen (Makes setting) (.first limit element offset) call) :
    call.Stays setting element offset := by
  induction calls with
  | refl =>
      exact ⟨rfl, fun _ inReach => inReach⟩
  | tail _ makes inductionHypothesis =>
      obtain ⟨⟨part, below, isPart⟩, sameOffset⟩ := makes.within
        (Setting.retains_beyond beyond) inductionHypothesis.offset
      refine ⟨sameOffset, ?_⟩
      intro value inReach
      rw [← isPart] at inReach
      exact inductionHypothesis.inReach value (inReach.of_below below)

theorem Tries.inReach
    {value : Terminal}
    (beyond : setting.input.size < offset.toNat)
    (tries : Tries setting limit element offset value) :
    TerminalInReach setting.grammar element value := by
  obtain ⟨call, calls, _, isTerminal⟩ := tries
  apply (Call.stays beyond calls).inReach
  rw [isTerminal]
  exact terminalInReach_self value

theorem Call.stopped_outOfRange_iff {call : Call} :
    call.Stopped setting .outOfRange ↔
      0 < call.room ∧ setting.Denies call.offset call.element .outOfRange := by
  unfold Stopped
  cases call.room <;> simp

/-- The match is out of range if and only if it comes to a terminal that seems
to fit. -/
theorem outOfRange_iff (beyond : setting.input.size < offset.toNat) :
    (Call.first limit element offset).outcome setting = .error .outOfRange ↔
      ∃ value, Tries setting limit element offset value ∧
        value.SeemsToFit setting.input.size offset := by
  rw [Call.outcome_eq_error_iff]
  constructor
  · intro reached
    obtain ⟨call, calls, stopped⟩ := reached
    obtain ⟨levels, denies⟩ := Call.stopped_outOfRange_iff.mp stopped
    rw [(Call.stays beyond calls).offset,
      Setting.denies_outOfRange_iff beyond] at denies
    obtain ⟨value, isTerminal, seems⟩ := denies
    exact ⟨value, ⟨call, calls, levels, isTerminal⟩, seems⟩
  · intro overlong
    obtain ⟨value, ⟨call, calls, levels, isTerminal⟩, seems⟩ := overlong
    refine ⟨call, calls, Call.stopped_outOfRange_iff.mpr ⟨levels, ?_⟩⟩
    rw [(Call.stays beyond calls).offset,
      Setting.denies_outOfRange_iff beyond]
    exact ⟨value, isTerminal, seems⟩

/-- The match finds nothing, or that nothing is left to do. -/
theorem Call.found_beyond
    {found : Option Offset}
    (beyond : setting.input.size < offset.toNat)
    (returned : (first limit element offset).outcome setting = .ok found) :
    found = none ∨ found = some offset := by
  have foundIn : FoundIn (· = offset) found :=
    (evaluate_upholds_foundIn limit 0 (Setting.retains_beyond beyond) rfl #[]
      trivial).2 found returned
  cases found with
  | none => exact Or.inl rfl
  | some stop => exact Or.inr (congrArg some (foundIn stop rfl))

end Greedy

/-! ## Exhaustive matching -/

namespace Exhaustive

variable {setting : Setting} {limit : Nat} {place : Place} {element : Element}
  {offset : Offset}

/-- The match comes to evaluate the terminal, afresh. -/
def Tries
    (setting : Setting) (limit : Nat) (place : Place) (element : Element)
    (offset : Offset) (value : Terminal) : Prop :=
  ∃ call,
    ReflTransGen (Call.Makes setting) (.first limit place element offset) call ∧
    call.Fresh ∧ 0 < call.room ∧ call.occurrence.element = .terminal value

structure Call.Stays
    (setting : Setting) (element : Element) (origin : Offset) (call : Call) :
    Prop where
  offset : call.offset = origin
  confined : Confined (· = origin) ⟨.empty, #[]⟩ call.memory
  inReach : ∀ value,
    TerminalInReach setting.grammar call.occurrence.element value →
    TerminalInReach setting.grammar element value

theorem Call.stays
    {call : Call}
    (beyond : setting.input.size < offset.toNat)
    (calls : ReflTransGen (Makes setting) (.first limit place element offset)
      call) :
    call.Stays setting element offset := by
  induction calls with
  | refl =>
      exact ⟨rfl, confined_empty, fun _ inReach => inReach⟩
  | tail _ makes inductionHypothesis =>
      -- Unlike a greedy one, a visit may be answered from the table, which must
      -- therefore not leave the offset either.
      obtain ⟨below, sameOffset, confined⟩ := makes.within
        (Setting.retains_beyond beyond) inductionHypothesis.offset
        inductionHypothesis.confined
      refine ⟨sameOffset, confined, ?_⟩
      intro value inReach
      exact inductionHypothesis.inReach value (inReach.of_below below)

theorem Tries.inReach
    {value : Terminal}
    (beyond : setting.input.size < offset.toNat)
    (tries : Tries setting limit place element offset value) :
    TerminalInReach setting.grammar element value := by
  obtain ⟨call, calls, _, _, isTerminal⟩ := tries
  apply (Call.stays beyond calls).inReach
  rw [isTerminal]
  exact terminalInReach_self value

theorem Call.stopped_outOfRange_iff {call : Call} :
    call.Stopped setting .outOfRange ↔
      call.Fresh ∧ 0 < call.room ∧
        setting.Denies call.offset call.occurrence.element .outOfRange := by
  constructor
  · intro stopped
    refine ⟨stopped.toFresh, ?_⟩
    have reason := stopped.reason
    split at reason
    · cases reason
    · next levels =>
        exact ⟨by omega, reason⟩
  · intro denied
    obtain ⟨fresh, levels, denies⟩ := denied
    refine ⟨fresh, ?_⟩
    split
    · omega
    · exact denies

theorem outOfRange_iff (beyond : setting.input.size < offset.toNat) :
    (Call.first limit place element offset).outcome setting =
        .error .outOfRange ↔
      ∃ value, Tries setting limit place element offset value ∧
        value.SeemsToFit setting.input.size offset := by
  rw [Call.outcome_eq_error_iff]
  constructor
  · intro reached
    obtain ⟨call, calls, stopped⟩ := reached
    obtain ⟨fresh, levels, denies⟩ := Call.stopped_outOfRange_iff.mp stopped
    rw [(Call.stays beyond calls).offset,
      Setting.denies_outOfRange_iff beyond] at denies
    obtain ⟨value, isTerminal, seems⟩ := denies
    exact ⟨value, ⟨call, calls, fresh, levels, isTerminal⟩, seems⟩
  · intro overlong
    obtain ⟨value, ⟨call, calls, fresh, levels, isTerminal⟩, seems⟩ :=
      overlong
    refine ⟨call, calls, Call.stopped_outOfRange_iff.mpr ⟨fresh, levels, ?_⟩⟩
    rw [(Call.stays beyond calls).offset,
      Setting.denies_outOfRange_iff beyond]
    exact ⟨value, isTerminal, seems⟩

theorem Call.found_beyond
    {ends : Ends}
    (beyond : setting.input.size < offset.toNat)
    (returned : (first limit place element offset).outcome setting =
      .ok ends) :
    ends.offsets = [] ∨ ends.offsets = [offset] := by
  apply Ends.offsets_of_lieIn_single
  exact (visit_confined (Setting.retains_beyond beyond) rfl _
    confined_empty).2 ends returned

end Exhaustive

/-! ## Entry points -/

namespace Conformance

/-- The match comes to evaluate the terminal. -/
def Tries
    (options : Options) (grammar : Option Grammar) (element : Element)
    (input : Octets) (offset : Offset) (place : Place) (value : Terminal) :
    Prop :=
  match options.strategy with
  | .greedy =>
      Greedy.Tries (setting options grammar input) options.limit element
        offset value
  | .exhaustive =>
      Exhaustive.Tries (setting options grammar input) options.limit place
        element offset value

/-- What matching an element at an offset beyond the input comes to. -/
structure Idles
    (options : Options) (grammar : Option Grammar) (element : Element)
    (input : Octets) (offset : Offset) (place : Place) : Prop where
  matched : ∀ consumed,
    (matchElement options grammar element input offset place).outcome =
      .ok consumed →
    consumed = none ∨ consumed = some 0
  listed : ∀ lengths,
    (matchLengths options grammar element input offset place).outcome =
      .ok lengths →
    lengths = [] ∨ lengths = [0]
  matchStops :
    (matchElement options grammar element input offset place).outcome =
        .error .outOfRange ↔
      ∃ value, Tries options grammar element input offset place value ∧
        value.SeemsToFit input.length offset
  listingStops :
    (matchLengths options grammar element input offset place).outcome =
        .error .outOfRange ↔
      ∃ value,
        Exhaustive.Tries (setting options grammar input) options.limit place
          element offset value ∧
        value.SeemsToFit input.length offset
  wraps : ∀ value : Terminal, value.SeemsToFit input.length offset →
    UInt64.size ≤ offset.toNat + value.length
  harmless :
    (∀ value, TerminalInReach grammar element value →
      ¬ value.SeemsToFit input.length offset) →
    (matchElement options grammar element input offset place).outcome ≠
        .error .outOfRange ∧
      (matchLengths options grammar element input offset place).outcome ≠
        .error .outOfRange

section Idles

variable {options : Options} {grammar : Option Grammar} {element : Element}
  {input : Octets} {offset : Offset} {place : Place}

theorem beyond_setting
    (options : Options) (grammar : Option Grammar)
    (beyond : input.length < offset.toNat) :
    (setting options grammar input).input.size < offset.toNat := by
  rw [size_setting]
  exact beyond

theorem offsets_beyond
    {ends : Ends} (beyond : input.length < offset.toNat)
    (returned : (allEnds options grammar element input offset place).outcome =
      .ok ends) :
    ends.offsets = [] ∨ ends.offsets = [offset] :=
  Exhaustive.Call.found_beyond (beyond_setting options grammar beyond)
    returned

theorem matched_beyond
    {consumed : Option UInt64} (beyond : input.length < offset.toNat)
    (returned :
      (matchElement options grammar element input offset place).outcome =
        .ok consumed) :
    consumed = none ∨ consumed = some 0 := by
  cases strategy : options.strategy with
  | greedy =>
      rw [outcome_matchElement_greedy strategy, map_eq_ok_iff] at returned
      obtain ⟨found, reached, rfl⟩ := returned
      rcases Greedy.Call.found_beyond
        (beyond_setting options grammar beyond) reached with rfl | rfl
      · exact Or.inl rfl
      · right
        simp
  | exhaustive =>
      rw [outcome_matchElement_exhaustive strategy, map_eq_ok_iff] at returned
      obtain ⟨ends, reached, rfl⟩ := returned
      rcases offsets_beyond beyond reached with nothing | sole
      · left
        simp [Ends.farthest?, nothing]
      · right
        simp [Ends.farthest?, sole]

theorem listed_beyond
    {lengths : List UInt64} (beyond : input.length < offset.toNat)
    (returned :
      (matchLengths options grammar element input offset place).outcome =
        .ok lengths) :
    lengths = [] ∨ lengths = [0] := by
  rw [outcome_matchLengths, map_eq_ok_iff] at returned
  obtain ⟨ends, reached, rfl⟩ := returned
  rcases offsets_beyond beyond reached with nothing | sole
  · left
    simp [nothing]
  · right
    simp [sole]

theorem allEnds_outOfRange_iff (beyond : input.length < offset.toNat) :
    (allEnds options grammar element input offset place).outcome =
        .error .outOfRange ↔
      ∃ value,
        Exhaustive.Tries (setting options grammar input) options.limit place
          element offset value ∧
        value.SeemsToFit input.length offset := by
  rw [← @size_setting options grammar input]
  exact Exhaustive.outOfRange_iff (beyond_setting options grammar beyond)

theorem matchElement_outOfRange_iff (beyond : input.length < offset.toNat) :
    (matchElement options grammar element input offset place).outcome =
        .error .outOfRange ↔
      ∃ value, Tries options grammar element input offset place value ∧
        value.SeemsToFit input.length offset := by
  cases strategy : options.strategy with
  | greedy =>
      simp only [Tries, strategy]
      rw [outcome_matchElement_greedy strategy, map_eq_error_iff,
        ← @size_setting options grammar input]
      exact Greedy.outOfRange_iff (beyond_setting options grammar beyond)
  | exhaustive =>
      simp only [Tries, strategy]
      rw [outcome_matchElement_exhaustive strategy, map_eq_error_iff]
      exact allEnds_outOfRange_iff beyond

theorem Tries.inReach
    {value : Terminal} (beyond : input.length < offset.toNat)
    (tries : Tries options grammar element input offset place value) :
    TerminalInReach grammar element value := by
  have beyondSetting := beyond_setting options grammar beyond
  unfold Tries at tries
  split at tries
  · exact Greedy.Tries.inReach beyondSetting tries
  · exact Exhaustive.Tries.inReach beyondSetting tries

/-- Beyond the input, matching consumes nothing, and it is out of range just
when it comes to a terminal whose end wraps around into the input. If there is
no such terminal in reach, it never is. -/
theorem idles_beyond_input (beyond : input.length < offset.toNat) :
    Idles options grammar element input offset place := by
  have listingStops :
      (matchLengths options grammar element input offset place).outcome =
          .error .outOfRange ↔
        ∃ value,
          Exhaustive.Tries (setting options grammar input) options.limit place
            element offset value ∧
          value.SeemsToFit input.length offset := by
    rw [outcome_matchLengths, map_eq_error_iff]
    exact allEnds_outOfRange_iff beyond
  refine ⟨fun _ => matched_beyond beyond, fun _ => listed_beyond beyond,
    matchElement_outOfRange_iff beyond, listingStops,
    fun _ seems => seems.size_le beyond, ?_⟩
  intro noneSeems
  constructor
  · intro failed
    obtain ⟨value, tries, seems⟩ :=
      (matchElement_outOfRange_iff beyond).mp failed
    exact noneSeems value (tries.inReach beyond) seems
  · intro failed
    obtain ⟨value, tries, seems⟩ := listingStops.mp failed
    have inReach := tries.inReach (beyond_setting options grammar beyond)
    exact noneSeems value inReach seems

end Idles

/-- Two octets from the last offset there is, `"x"` still counts as too long for
the input. -/
theorem idles_beyond_input_optionalLetter :
    (octets "xx").length < (18446744073709551614 : Offset).toNat ∧
    (matchElement {} none (.option (.terminal (.caseless (octets "x"))))
      (octets "xx") 18446744073709551614).outcome ≠ .error .outOfRange ∧
    (matchLengths {} none (.option (.terminal (.caseless (octets "x"))))
      (octets "xx") 18446744073709551614).outcome ≠ .error .outOfRange := by
  have beyond :
      (octets "xx").length < (18446744073709551614 : Offset).toNat := by
    decide
  have idles :=
    @idles_beyond_input {} none (.option (.terminal (.caseless (octets "x"))))
      (octets "xx") 18446744073709551614 .tested beyond
  refine ⟨beyond, idles.harmless ?_⟩
  intro value inReach
  rcases inReach with member | ⟨rule, reaches, _⟩
  · have isLetter : value = .caseless (octets "x") := by
      simpa [Element.nodes] using member
    rw [isLetter]
    decide
  · obtain ⟨name, meaning⟩ := reaches.exists_meaning
    cases meaning

/-- At the last offset there is, the end of `"a"` wraps around to the beginning
of the input. -/
theorem outOfRange_beyond_input :
    ([] : Octets).length < (18446744073709551615 : Offset).toNat ∧
    (matchElement {} none (.terminal (.caseless (octets "a"))) []
      18446744073709551615).outcome = .error .outOfRange ∧
    (matchElement { strategy := .exhaustive } none
      (.terminal (.caseless (octets "a"))) []
      18446744073709551615).outcome = .error .outOfRange ∧
    (matchLengths {} none (.terminal (.caseless (octets "a"))) []
      18446744073709551615).outcome = .error .outOfRange := by
  refine ⟨by decide, ?_, ?_, ?_⟩
  · rfl
  · rfl
  · rfl

end Conformance

end AbnfMatching
