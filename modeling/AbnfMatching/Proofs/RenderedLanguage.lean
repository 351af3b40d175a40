import AbnfMatching.Proofs.Exactness
import AbnfMatching.Proofs.UniqueReading

/-!
# The text of an element determines its language

Taking the normal form changes neither the names that an element mentions nor,
as long as every literal can be quoted, its language. Legible elements with the
same text therefore have the same language, and matching them comes to the same
lengths if it finds everything.
-/

namespace AbnfMatching

/-! ## The language of the normal form -/

namespace Element

/-- Every literal in the element can be quoted. -/
def Quotable (element : Element) : Prop :=
  ∀ bytes letterCase, .terminal (.literal bytes letterCase) ∈ element.nodes →
    bytes.all isQuotable = true

section Normal

variable {grammar : Option Grammar} {element : Element}

theorem Quotable.part
    {constituent : Element} (quotable : element.Quotable)
    (member : constituent ∈ element.children) :
    constituent.Quotable := by
  intro bytes letterCase inside
  exact quotable bytes letterCase (nodes_subset_of_mem_children member inside)

theorem Quotable.normal_terminal
    {value : Terminal} (quotable : (terminal value).Quotable) :
    value.normal = value := by
  cases value with
  | literal bytes letterCase =>
      rw [Terminal.normal, if_pos]
      exact quotable bytes letterCase List.mem_cons_self
  | octet value => rfl
  | range interval => rfl

/-- Equivalent parts make equivalent sequences. -/
theorem derives_sequence_map_iff
    {change : Element → Element} {parts : List Element}
    (equivalent : ∀ part ∈ parts, ∀ word,
      Derives grammar (change part) word ↔ Derives grammar part word)
    (word : Octets) :
    Derives grammar (.sequence (parts.map change)) word ↔
      Derives grammar (.sequence parts) word := by
  induction parts generalizing word with
  | nil =>
      rfl
  | cons head tail inductionHypothesis =>
      have tails := inductionHypothesis fun part member =>
        equivalent part (List.mem_cons_of_mem head member)
      have heads := equivalent head List.mem_cons_self
      simp only [List.map_cons, derives_sequence_cons_iff, heads, tails]

theorem derives_sequence_singleton_iff
    {part : Element} {word : Octets} :
    Derives grammar (.sequence [part]) word ↔ Derives grammar part word := by
  rw [derives_sequence_cons_iff]
  simp [derives_sequence_nil_iff]

theorem derives_normalSequence_iff
    {parts : List Element} {word : Octets} :
    Derives grammar (normalSequence parts) word ↔
      Derives grammar (.sequence parts) word := by
  match parts with
  | [] =>
      rw [normalSequence, derives_terminal_iff, derives_sequence_nil_iff]
      simp [Terminal.caseless, Terminal.accepts, sameFolded]
  | [part] =>
      exact derives_sequence_singleton_iff.symm
  | first :: next :: more =>
      rfl

theorem derives_normalAlternation_iff
    {branches : List Element} {word : Octets} :
    Derives grammar (normalAlternation branches) word ↔
      Derives grammar (.alternation branches) word := by
  match branches with
  | [] =>
      rfl
  | [branch] =>
      simp [normalAlternation, derives_alternation_iff]
  | first :: next :: more =>
      rfl

/-- The normal form of an element whose literals can be quoted has the same
language. -/
theorem derives_normal_iff (quotable : element.Quotable) (word : Octets) :
    Derives grammar element.normal word ↔ Derives grammar element word := by
  induction element using induction_on_children generalizing word with
  | step element inductionHypothesis =>
      have parts : ∀ part ∈ element.children, ∀ word,
          Derives grammar part.normal word ↔ Derives grammar part word :=
        fun part member =>
          inductionHypothesis part member (quotable.part member)
      cases element with
      | terminal value =>
          rw [normal, quotable.normal_terminal]
      | reference name =>
          rfl
      | sequence elements =>
          rw [normal, normalOfAll_eq_map, derives_normalSequence_iff]
          exact derives_sequence_map_iff parts word
      | alternation branches =>
          rw [normal, normalOfAll_eq_map, derives_normalAlternation_iff]
          simp only [derives_alternation_iff, List.mem_map,
            exists_exists_and_eq_and]
          exact exists_congr fun branch =>
            and_congr_right fun member => parts branch member word
      | option body =>
          have same := parts body (List.mem_singleton_self body)
          rw [normal, derives_option_iff, derives_option_iff, same]
      | repetition bounds body =>
          have same := parts body (List.mem_singleton_self body)
          rw [normal, derives_repetition_iff, derives_repetition_iff]
          refine exists_congr fun count => and_congr_right fun _ => ?_
          rw [← List.map_replicate]
          refine derives_sequence_map_iff ?_ word
          intro round member
          rw [List.eq_of_mem_replicate member]
          exact same

theorem mentions_normalSequence (parts : List Element) :
    (normalSequence parts).mentions = mentionsOfAll parts := by
  match parts with
  | [] => rfl
  | [part] => simp [normalSequence, mentionsOfAll]
  | first :: next :: more => rfl

theorem mentions_normalAlternation (branches : List Element) :
    (normalAlternation branches).mentions = mentionsOfAll branches := by
  match branches with
  | [] => rfl
  | [branch] => simp [normalAlternation, mentionsOfAll]
  | first :: next :: more => rfl

theorem mentionsOfAll_normalOfAll
    {elements : List Element}
    (unchanged : ∀ element ∈ elements,
      element.normal.mentions = element.mentions) :
    mentionsOfAll (normalOfAll elements) = mentionsOfAll elements := by
  induction elements with
  | nil =>
      rfl
  | cons head tail inductionHypothesis =>
      have tails := inductionHypothesis fun element member =>
        unchanged element (List.mem_cons_of_mem head member)
      rw [normalOfAll, mentionsOfAll, mentionsOfAll, tails,
        unchanged head List.mem_cons_self]

/-- The normal form mentions the same names in the same order. -/
theorem mentions_normal (element : Element) :
    element.normal.mentions = element.mentions := by
  induction element using induction_on_children with
  | step element inductionHypothesis =>
      cases element with
      | terminal value => rfl
      | reference name => rfl
      | sequence parts =>
          rw [normal, mentions_normalSequence, mentions]
          exact mentionsOfAll_normalOfAll inductionHypothesis
      | alternation branches =>
          rw [normal, mentions_normalAlternation, mentions]
          exact mentionsOfAll_normalOfAll inductionHypothesis
      | option body =>
          exact inductionHypothesis body (List.mem_singleton_self body)
      | repetition bounds body =>
          exact inductionHypothesis body (List.mem_singleton_self body)

end Normal

/-! ## Elements with the same text -/

section SameText

variable {left right : Element}

/-- Legible elements with the same text have the same language, provided that
their literals can be quoted. -/
theorem derives_iff_of_text_eq
    {grammar : Option Grammar}
    (legible : left.Legible) (legible' : right.Legible)
    (quotable : left.Quotable) (quotable' : right.Quotable)
    (same : left.text = right.text) (word : Octets) :
    Derives grammar left word ↔ Derives grammar right word := by
  rw [← derives_normal_iff quotable, legible.normal_eq legible' same,
    derives_normal_iff quotable']

theorem mentions_eq_of_text_eq
    (legible : left.Legible) (legible' : right.Legible)
    (same : left.text = right.text) :
    left.mentions = right.mentions := by
  rw [← mentions_normal, legible.normal_eq legible' same, mentions_normal]

end SameText

end Element

/-! ## Reported lengths -/

namespace Conformance

/-- Legible elements with the same text, whose literals can be quoted, match the
same lengths everywhere: from no rule in reach being left-recursive it follows
that the two lists are equal if both matches return. -/
theorem matchLengths_of_text_eq
    {options options' : Options} {grammar : Option Grammar}
    {left right : Element} {input : Octets} {offset : Offset}
    {place place' : Place} {lengths lengths' : List UInt64}
    (legible : left.Legible) (legible' : right.Legible)
    (quotable : left.Quotable) (quotable' : right.Quotable)
    (same : left.text = right.text)
    (fits : input.length < UInt64.size)
    (holds : place.Holds grammar left)
    (holds' : place'.Holds grammar right)
    (inside : offset.toNat ≤ input.length)
    (free : FreeOfLeftRecursion grammar left)
    (returned :
      (matchLengths options grammar left input offset place).outcome =
        .ok lengths)
    (returned' :
      (matchLengths options' grammar right input offset place').outcome =
        .ok lengths') :
    lengths = lengths' := by
  have free' : FreeOfLeftRecursion grammar right := by
    intro rule reaches
    have mentions := Element.mentions_eq_of_text_eq legible legible' same
    exact free rule (reaches.of_subset (mentions ▸ List.Subset.refl _))
  rw [outcome_matchLengths] at returned returned'
  obtain ⟨ends, found, rfl⟩ := map_eq_ok_iff.mp returned
  obtain ⟨ends', found', rfl⟩ := map_eq_ok_iff.mp returned'
  have exact := Exhaustive.run_exact (addressable_setting options grammar fits)
    holds (inside_setting options grammar inside)
    free found
  have exact' := Exhaustive.run_exact
    (addressable_setting options' grammar fits)
    holds' (inside_setting options' grammar inside)
    free' found'
  have sameLanguage : ∀ word,
      Derives grammar left word ↔ Derives grammar right word :=
    Element.derives_iff_of_text_eq legible legible' quotable quotable' same
  have sameEnds : ends = ends' := by
    apply Ends.eq_of_mem_iff
    intro stop
    rw [exact stop, exact' stop]
    constructor
    · intro spans
      exact ⟨spans.ordered, spans.inside, (sameLanguage _).mp spans.derives⟩
    · intro spans
      exact ⟨spans.ordered, spans.inside, (sameLanguage _).mpr spans.derives⟩
  rw [sameEnds]

/-- The bounds that allow one number of repetitions only. -/
def exactBounds (count : Nat) : Bounds :=
  ⟨count, some count, by simp⟩

/-- Two rounds of `ys` inside a group of one constituent, be it a sequence or an
alternation. -/
def twoGroups (joint : Element.Joint) : Element :=
  .repetition (exactBounds 2) (joint.element [.reference growingRight.name])

theorem plain_growingRight : growingRight.name.IsPlain := by
  refine ⟨0x79, [0x73], rfl, by decide, ?_⟩
  intro octet member
  cases List.mem_singleton.mp member
  decide

theorem legible_twoGroups (joint : Element.Joint) :
    (twoGroups joint).Legible := by
  refine ⟨?_, ?_⟩
  · intro name mentioned
    have sole : name = growingRight.name := by
      cases joint <;>
        simpa [twoGroups, Element.Joint.element, Element.mentions,
          Element.mentionsOfAll] using mentioned
    rw [sole]
    exact plain_growingRight
  · intro bounds body inside inner core
    have sole : body = joint.element [.reference growingRight.name] := by
      cases joint <;>
        simp_all [twoGroups, Element.Joint.element, Element.nodes,
          Element.nodesOfAll]
    rw [sole, Element.normal_singleton]
    simp [Element.normal]

theorem quotable_twoGroups (joint : Element.Joint) :
    (twoGroups joint).Quotable := by
  intro bytes letterCase inside
  cases joint <;>
    simp [twoGroups, Element.Joint.element, Element.nodes,
      Element.nodesOfAll] at inside

/-- Both kinds of groups are written `2ys` and match two or three octets of
three. -/
theorem matchLengths_of_text_eq_twoGroups :
    (twoGroups .sequence).text = (twoGroups .alternation).text ∧
    (matchLengths {} (some (.ofRules [growingRight])) (twoGroups .sequence)
      (octets "xxx") 0).outcome = .ok [2, 3] ∧
    (matchLengths {} (some (.ofRules [growingRight]))
      (twoGroups .alternation) (octets "xxx") 0).outcome = .ok [2, 3] ∧
    ([2, 3] : List UInt64) = [2, 3] := by
  have texts :
      (twoGroups .sequence).text = (twoGroups .alternation).text := by
    decide
  have fits : (octets "xxx").length < UInt64.size := by
    decide
  have inside : (0 : Offset).toNat ≤ (octets "xxx").length :=
    Nat.zero_le _
  have returned :
      (matchLengths {} (some (.ofRules [growingRight])) (twoGroups .sequence)
        (octets "xxx") 0).outcome = .ok [2, 3] := by
    decide +kernel
  have returned' :
      (matchLengths {} (some (.ofRules [growingRight]))
        (twoGroups .alternation) (octets "xxx") 0).outcome =
          .ok [2, 3] := by
    decide +kernel
  exact ⟨texts, returned, returned', matchLengths_of_text_eq
    (legible_twoGroups .sequence) (legible_twoGroups .alternation)
    (quotable_twoGroups .sequence) (quotable_twoGroups .alternation) texts
    fits Place.holds_tested Place.holds_tested inside
    freeOfLeftRecursion_growingRight returned returned'⟩

/-- Some rounds of the letter `a`. -/
def letterRounds (count : Nat) : Element :=
  .repetition (exactBounds count) (.terminal (.caseless (octets "a")))

theorem quotable_letterRounds (count : Nat) :
    (letterRounds count).Quotable := by
  intro bytes letterCase inside
  have sole : bytes = octets "a" := by
    simp_all [letterRounds, Element.nodes, Terminal.caseless]
  rw [sole]
  decide

/-- Three rounds of two rounds are written like 32 rounds but match six octets,
although no name is mentioned and every literal can be quoted. -/
theorem matchLengths_differ_of_text_eq :
    (Element.repetition (exactBounds 3) (letterRounds 2)).text =
      (letterRounds 32).text ∧
    (Element.repetition (exactBounds 3) (letterRounds 2)).Quotable ∧
    (Element.repetition (exactBounds 3) (letterRounds 2)).mentions = [] ∧
    (letterRounds 32).Quotable ∧ (letterRounds 32).mentions = [] ∧
    (matchLengths {} none (.repetition (exactBounds 3) (letterRounds 2))
      (octets "aaaaaa") 0).outcome = .ok [6] ∧
    (matchLengths {} none (letterRounds 32) (octets "aaaaaa") 0).outcome =
      .ok [] := by
  have quotable :
      (Element.repetition (exactBounds 3) (letterRounds 2)).Quotable := by
    intro bytes letterCase inside
    rcases List.mem_cons.mp inside with root | below
    · cases root
    · exact quotable_letterRounds 2 bytes letterCase below
  exact ⟨by decide, quotable, rfl, quotable_letterRounds 32, rfl,
    by decide +kernel, by decide +kernel⟩

end Conformance

end AbnfMatching
