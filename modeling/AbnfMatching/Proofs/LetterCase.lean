import AbnfMatching.Proofs.EmbeddedOutcomes
import AbnfMatching.Proofs.Exactness
import AbnfMatching.Proofs.Tokens

/-!
# Letter case of the input

A terminal that accepts, with a slice, every slice that differs from it in
letter case only does not see the case of the input. If no terminal of an
element and of the rules in its reach sees it, then no match does: two inputs
that fold to the same string are matched with the same outcome, by either
strategy and under every limit.
-/

namespace AbnfMatching

/-! ## Swapping the case of a letter -/

/-- The same letter in the other case; an octet that is no letter stays as it
is. -/
def swapCase (octet : UInt8) : UInt8 :=
  if isCapital octet then octet + 0x20
  else if isLetter octet then octet - 0x20
  else octet

theorem isLetter_iff {octet : UInt8} :
    isLetter octet = true ↔
      isCapital octet = true ∨ 0x61 ≤ octet.toNat ∧ octet.toNat ≤ 0x7A := by
  simp [isLetter, UInt8.le_iff_toNat_le]

theorem toNat_swapCase {octet : UInt8} :
    (swapCase octet).toNat =
      if 0x41 ≤ octet.toNat ∧ octet.toNat ≤ 0x5A then octet.toNat + 0x20
      else if 0x61 ≤ octet.toNat ∧ octet.toNat ≤ 0x7A then octet.toNat - 0x20
      else octet.toNat := by
  simp only [swapCase, isLetter_iff, isCapital_iff]
  by_cases capital : 0x41 ≤ octet.toNat ∧ octet.toNat ≤ 0x5A
  · rw [if_pos capital, if_pos capital, UInt8.toNat_add]
    exact Nat.mod_eq_of_lt (by simp; omega)
  · rw [if_neg capital, if_neg capital]
    simp only [capital, false_or]
    split
    · refine UInt8.toNat_sub_of_le _ _ ?_
      rw [UInt8.le_iff_toNat_le]
      simp only [UInt8.reduceToNat]
      omega
    · rfl

/-- Octets fold to the same octet if they are equal or the same letter in either
case. -/
theorem foldOctet_eq_iff {left right : UInt8} :
    foldOctet left = foldOctet right ↔
      left = right ∨ left = swapCase right := by
  rw [← UInt8.toNat_inj, ← UInt8.toNat_inj, ← UInt8.toNat_inj,
    toNat_foldOctet, toNat_foldOctet, toNat_swapCase]
  grind

theorem swapCase_of_not_isLetter
    {octet : UInt8} (noLetter : isLetter octet = false) :
    swapCase octet = octet := by
  have noCapital : isCapital octet = false := by
    rw [isLetter, Bool.or_eq_false_iff] at noLetter
    exact noLetter.1
  simp [swapCase, noCapital, noLetter]

/-- A string without letters is the only one that folds as it does. -/
theorem eq_of_foldCase_eq
    {left right : Octets} (noLetters : ∀ octet ∈ right, isLetter octet = false)
    (same : foldCase left = foldCase right) :
    left = right := by
  induction right generalizing left with
  | nil =>
      simpa using same
  | cons head tail inductionHypothesis =>
      cases left with
      | nil =>
          cases same
      | cons first rest =>
          obtain ⟨heads, tails⟩ := List.cons.inj same
          have headEqual : first = head := by
            rcases foldOctet_eq_iff.mp heads with equal | swapped
            · exact equal
            · rw [swapped]
              exact swapCase_of_not_isLetter
                (noLetters head List.mem_cons_self)
          rw [headEqual, inductionHypothesis
            (fun octet member =>
              noLetters octet (List.mem_cons_of_mem head member)) tails]

/-! ## Terminals that do not see the case -/

/-- A literal that is compared up to letter case, a literal without letters, or
a terminal for single octets that accepts a letter in both cases if it accepts
it in one of them. -/
def Terminal.Caseless : Terminal → Prop
  | .literal _ .insensitive => True
  | .literal text .sensitive => ∀ octet ∈ text, isLetter octet = false
  | single => ∀ octet, single.accepts [octet] = true →
      single.accepts [swapCase octet] = true

section Terminals

variable {terminal : Terminal} {left right : Octets}

/-- A terminal for single octets that accepts letters in both cases does not see
the case of a slice. -/
theorem accepts_of_swapped
    (closed : ∀ octet, terminal.accepts [octet] = true →
      terminal.accepts [swapCase octet] = true)
    (single : terminal.length = 1)
    (same : foldCase left = foldCase right)
    (accepted : terminal.accepts right = true) :
    terminal.accepts left = true := by
  have lengths := Terminal.length_of_accepts accepted
  have sameLength : left.length = right.length := by
    simpa using congrArg List.length same
  obtain ⟨other, rfl⟩ := List.length_eq_one_iff.mp (lengths.trans single)
  obtain ⟨octet, rfl⟩ := List.length_eq_one_iff.mp sameLength
  rcases foldOctet_eq_iff.mp (List.cons.inj same).1 with rfl | rfl
  · exact accepted
  · exact closed other accepted

theorem Terminal.Caseless.accepts_eq
    (caseless : terminal.Caseless) (same : foldCase left = foldCase right) :
    terminal.accepts left = terminal.accepts right := by
  have eitherWay : ∀ single : Terminal,
      (∀ octet, single.accepts [octet] = true →
        single.accepts [swapCase octet] = true) →
      single.length = 1 → single.accepts left = single.accepts right := by
    intro single closed length
    rw [Bool.eq_iff_iff]
    exact ⟨accepts_of_swapped closed length same.symm,
      accepts_of_swapped closed length same⟩
  match terminal, caseless with
  | .literal text .insensitive, _ =>
      simp only [accepts, sameFolded, same]
  | .literal text .sensitive, noLetters =>
      rw [Bool.eq_iff_iff, accepts, accepts, beq_iff_eq, beq_iff_eq]
      constructor
      · rintro rfl
        exact eq_of_foldCase_eq noLetters same.symm
      · rintro rfl
        exact eq_of_foldCase_eq noLetters same
  | .octet value, closed => exact eitherWay (.octet value) closed rfl
  | .range interval, closed => exact eitherWay (.range interval) closed rfl

end Terminals

/-- No terminal of the element or of a rule in its reach sees the case of a
letter. -/
structure CaselessFrom (grammar : Option Grammar) (element : Element) :
    Prop where
  own : ∀ value, .terminal value ∈ element.nodes → value.Caseless
  reached : ∀ rule, Reaches grammar element rule →
    ∀ value, .terminal value ∈ rule.element.nodes → value.Caseless

section CaselessFrom

variable {grammar : Option Grammar} {element : Element}

theorem CaselessFrom.part
    {part : Element} (caseless : CaselessFrom grammar element)
    (member : part ∈ element.children) :
    CaselessFrom grammar part := by
  constructor
  · intro value node
    exact caseless.own value (Element.nodes_subset_of_mem_children member node)
  · intro rule reaches
    exact caseless.reached rule
      (reaches.of_subset (Element.mentions_subset_of_mem_children member))

theorem CaselessFrom.meaning
    {name : RuleName} {rule : Rule}
    (caseless : CaselessFrom grammar (.reference name))
    (meaning : ruleOf grammar name = some rule) :
    CaselessFrom grammar rule.element := by
  have reaches : Reaches grammar (.reference name) rule :=
    .directly (List.mem_singleton_self name) meaning
  exact ⟨caseless.reached rule reaches,
    fun other further => caseless.reached other (reaches.trans further)⟩

end CaselessFrom

/-! ## Matching -/

namespace Conformance

section Recased

variable {options : Options} {grammar : Option Grammar} {left right : Octets}

theorem foldCase_between
    {start stop : Offset} (same : foldCase left = foldCase right) :
    foldCase ((setting options grammar right).between start stop) =
      foldCase ((setting options grammar left).between start stop) := by
  unfold Setting.between foldCase
  rw [List.map_take, List.map_take, List.map_drop, List.map_drop]
  exact congrArg (fun folded : Octets =>
    (folded.drop start.toNat).take (stop.toNat - start.toNat)) same.symm

/-- An input in place of another one that differs from it in letter case only,
for elements without terminals that see the case. -/
def recased
    (options : Options) (grammar : Option Grammar) (left right : Octets)
    (same : foldCase left = foldCase right)
    (fits : left.length < UInt64.size) : Embedding where
  inner := setting options grammar left
  outer := setting options grammar right
  lead := 0
  within := CaselessFrom grammar
  grammar := grammar_setting.trans grammar_setting.symm
  fits := by
    have lengths := congrArg List.length same
    rw [length_foldCase, length_foldCase] at lengths
    rw [size_setting, size_setting, lengths, Nat.zero_add]
  addressable := by
    have lengths := congrArg List.length same
    rw [length_foldCase, length_foldCase] at lengths
    exact addressable_setting options grammar (lengths ▸ fits)
  parts _ _ caseless member := caseless.part member
  meanings _ _ caseless meaning := caseless.meaning meaning
  terminals := by
    intro value caseless start stop _ _
    rw [displace_zero, displace_zero]
    exact (caseless.own value (List.mem_singleton_self _)).accepts_eq
      (foldCase_between same)

end Recased

/-- If no terminal that can be met sees the case of a letter, then inputs that
fold to the same string are matched, measured and judged with the same
outcome. -/
theorem letter_case_ignored
    {options : Options} {grammar : Option Grammar} {rule : Rule}
    {left right : Octets} {place : Place}
    (caseless : CaselessFrom grammar rule.element)
    (same : foldCase left = foldCase right)
    (fits : left.length < UInt64.size) :
    (∀ offset : Offset, offset.toNat ≤ left.length →
      (matchElement options grammar rule.element left offset place).outcome =
        (matchElement options grammar rule.element right offset place).outcome ∧
      (matchLengths options grammar rule.element left offset place).outcome =
        (matchLengths options grammar rule.element right offset
          place).outcome) ∧
    (validate options grammar rule left place).outcome =
      (validate options grammar rule right place).outcome ∧
    ∀ present name, grammar = some present → present.fetch name = .ok rule →
      (validateNamed options present name left).outcome =
        (validateNamed options present name right).outcome := by
  let embedding := recased options grammar left right same fits
  have embeds : Embeds embedding options grammar left right := ⟨rfl, rfl⟩
  have atEnd : embedding.AtEnd := by
    have lengths := congrArg List.length same
    rw [length_foldCase, length_foldCase] at lengths
    unfold Embedding.AtEnd
    rw [embeds.inner, embeds.outer, size_setting, size_setting, lengths]
    exact Nat.zero_add _
  have judged : ∀ place : Place,
      (validate options grammar rule left place).outcome =
        (validate options grammar rule right place).outcome :=
    fun place => (embeds.validate_eq rfl atEnd caseless).symm
  refine ⟨?_, judged place, ?_⟩
  · intro offset inside
    obtain ⟨matched, listed⟩ :=
      embeds.matches_eq place atEnd caseless inside
    have aligned : displace embedding.lead offset = offset := displace_zero
    rw [aligned] at matched listed
    exact ⟨matched.symm, listed.symm⟩
  · intro present name isPresent found
    subst isPresent
    rw [outcome_validateNamed found, outcome_validateNamed found]
    exact judged (.rule rule.key)

theorem caselessFrom_growingRight :
    CaselessFrom (some (.ofRules [growingRight])) growingRight.element := by
  have own : ∀ value, .terminal value ∈ growingRight.element.nodes →
      value.Caseless := by
    intro value member
    simp only [growingRight, Element.nodes, Element.nodesOfAll,
      List.mem_cons, List.mem_append, List.not_mem_nil, reduceCtorEq,
      Element.terminal.injEq, or_false, false_or, or_self] at member
    rw [member]
    trivial
  refine ⟨own, ?_⟩
  intro rule reaches
  have sole : rule = growingRight := by
    cases reaches with
    | directly _ meaning => exact eq_growingRight_of_ruleOf meaning
    | through _ _ meaning => exact eq_growingRight_of_ruleOf meaning
  rw [sole]
  exact own

theorem letter_case_ignored_growingRight :
    foldCase (octets "xX") = foldCase (octets "Xx") ∧
    CaselessFrom (some (.ofRules [growingRight])) growingRight.element ∧
    (matchLengths {} (some (.ofRules [growingRight])) growingRight.element
      (octets "xX") 0).outcome = .ok [1, 2] ∧
    (validateNamed {} (.ofRules [growingRight]) (octets "YS")
      (octets "xX")).outcome = .ok () := by
  have same : foldCase (octets "xX") = foldCase (octets "Xx") := by
    decide
  have fits : (octets "xX").length < UInt64.size := by
    decide
  have inside : (0 : Offset).toNat ≤ (octets "xX").length :=
    Nat.zero_le _
  obtain ⟨matched, _, named⟩ := @letter_case_ignored {} _ _ _ _ .tested
    caselessFrom_growingRight same fits
  exact ⟨same, caselessFrom_growingRight, (matched 0 inside).2.trans rfl,
    (named _ (octets "YS") rfl rfl).trans rfl⟩

end Conformance

end AbnfMatching
