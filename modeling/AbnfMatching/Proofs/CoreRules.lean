import AbnfMatching.Language.CoreSets
import AbnfMatching.Proofs.Additions
import AbnfMatching.Proofs.FixedWidths
import AbnfMatching.Proofs.LetterCase

/-!
# The core rules define their languages

The grammar of the core rules has a rule for exactly the names that core rules
have, and the words of each rule are those that the standard lists for it. All
of these rules have a fixed width and refer to no other rule, so that a check
against any of them ends in a verdict.
-/

namespace AbnfMatching

namespace Core

/-! ## Sets of octets -/

/-- The words of an element are the octets of some intervals. -/
structure IsOctetSet
    (element : Element) (intervals : List Interval) : Prop where
  fixed : FixedWidth element 1
  derives_iff : ∀ (grammar : Option Grammar) (octet : UInt8),
    Derives grammar element [octet] ↔
      ∃ interval ∈ intervals, interval.has octet = true

section IsOctetSet

variable {intervals : List Interval}

theorem isOctetSet_single (value : UInt8) :
    IsOctetSet (single value) [⟨value, value⟩] := by
  refine ⟨.terminal (.octet value), ?_⟩
  intro grammar octet
  rw [single, derives_terminal_iff]
  simp [Terminal.accepts, Interval.has_point_iff]

theorem isOctetSet_span {lower upper : UInt8} (ordered : lower ≤ upper) :
    IsOctetSet (span lower upper ordered) [⟨lower, upper⟩] := by
  refine ⟨.terminal (.range ⟨lower, upper, ordered⟩), ?_⟩
  intro grammar octet
  rw [span, derives_terminal_iff, Terminal.accepts]
  simp only [List.mem_singleton, exists_eq_left]
  rfl

/-- A capital letter stands for the small letter as well. -/
theorem isOctetSet_letter
    {text : String} {capital : UInt8}
    (spelled : octets text = [capital])
    (isCapital : isCapital capital = true) :
    IsOctetSet (letter text)
      [⟨capital, capital⟩, ⟨capital + 0x20, capital + 0x20⟩] := by
  have small : swapCase capital = capital + 0x20 := by
    rw [swapCase, if_pos isCapital]
  rw [letter, spelled]
  refine ⟨.terminal (.caseless [capital]), ?_⟩
  intro grammar octet
  rw [derives_terminal_iff]
  simp [Terminal.caseless, Terminal.accepts, sameFolded, foldOctet_eq_iff,
    small, Interval.has_point_iff]

theorem isOctetSet_nothing :
    IsOctetSet (.alternation []) [] := by
  refine ⟨.oneOf (by simp), ?_⟩
  intro grammar octet
  simp [derives_alternation_iff]

/-- One more branch adds its octets. -/
theorem isOctetSet_either
    {head : Element} {tail : List Element} {intervals' : List Interval}
    (headSet : IsOctetSet head intervals)
    (tailSet : IsOctetSet (.alternation tail) intervals') :
    IsOctetSet (.alternation (head :: tail)) (intervals ++ intervals') := by
  constructor
  · cases tailSet.fixed with
    | oneOf tailFixed =>
        exact .oneOf (List.forall_mem_cons.mpr ⟨headSet.fixed, tailFixed⟩)
  · intro grammar octet
    have inTail := tailSet.derives_iff grammar octet
    rw [derives_alternation_iff] at inTail ⊢
    rw [List.exists_mem_cons_iff, headSet.derives_iff, inTail]
    simp only [List.mem_append, or_and_right, exists_or]

theorem IsOctetSet.congr
    {element : Element} {intervals' : List Interval}
    (isSet : IsOctetSet element intervals)
    (same : ∀ octet,
      (∃ interval ∈ intervals, interval.has octet = true) ↔
        ∃ interval ∈ intervals', interval.has octet = true) :
    IsOctetSet element intervals' :=
  ⟨isSet.fixed, fun grammar octet =>
    (isSet.derives_iff grammar octet).trans (same octet)⟩

theorem IsOctetSet.derives_iff_exists
    {element : Element} {grammar : Option Grammar} {word : Octets}
    (isSet : IsOctetSet element intervals) :
    Derives grammar element word ↔
      ∃ octet, word = [octet] ∧
        ∃ interval ∈ intervals, interval.has octet = true := by
  constructor
  · intro derives
    obtain ⟨octet, rfl⟩ :=
      List.length_eq_one_iff.mp (isSet.fixed.length_eq derives)
    exact ⟨octet, rfl, (isSet.derives_iff grammar octet).mp derives⟩
  · rintro ⟨octet, rfl, within⟩
    exact (isSet.derives_iff grammar octet).mpr within

end IsOctetSet

/-! ## The table -/

/-- `BIT` is listed as one interval and defined by two octets. -/
theorem has_bits_iff {octet : UInt8} :
    (∃ interval ∈ [Interval.mk 0x30 0x30, ⟨0x31, 0x31⟩],
      interval.has octet = true) ↔
    ∃ interval ∈ [Interval.mk 0x30 0x31], interval.has octet = true := by
  simp only [List.mem_cons, List.not_mem_nil, or_false, exists_eq_or_imp,
    exists_eq_left, Interval.has_iff, UInt8.reduceToNat]
  omega

/-- `HEXDIG` is listed as three intervals and defined by ten digits and six
letters. -/
theorem has_hexDigits_iff {octet : UInt8} :
    (∃ interval ∈
      [Interval.mk 0x30 0x39,
        ⟨0x41, 0x41⟩, ⟨0x61, 0x61⟩, ⟨0x42, 0x42⟩, ⟨0x62, 0x62⟩,
        ⟨0x43, 0x43⟩, ⟨0x63, 0x63⟩, ⟨0x44, 0x44⟩, ⟨0x64, 0x64⟩,
        ⟨0x45, 0x45⟩, ⟨0x65, 0x65⟩, ⟨0x46, 0x46⟩, ⟨0x66, 0x66⟩],
      interval.has octet = true) ↔
    ∃ interval ∈ [Interval.mk 0x30 0x39, ⟨0x41, 0x46⟩, ⟨0x61, 0x66⟩],
      interval.has octet = true := by
  simp only [List.mem_cons, List.not_mem_nil, or_false, exists_eq_or_imp,
    exists_eq_left, Interval.has_iff, UInt8.reduceToNat]
  omega

/-- How a core rule agrees with what is listed for its name. -/
inductive Listed (rule : Rule) : Prop
  | octetSet (intervals : List Interval) :
      octetSets.lookup rule.key = some intervals →
      IsOctetSet rule.element intervals →
      Listed rule
  | lineEnd :
      rule.key = lineEndName →
      rule.element = .sequence [single 0x0D, single 0x0A] →
      Listed rule

theorem listed_rules : ∀ rule ∈ rules, Listed rule := by
  simp only [rules, List.forall_mem_cons]
  refine ⟨?alpha, ?digit, ?hexdig, ?bit, ?sp, ?htab, ?cr, ?lf, ?crlf, ?wsp,
    ?dquote, ?vchar, ?char, ?ctl, ?octet, List.forall_mem_nil _⟩
  case alpha =>
    exact .octetSet _ rfl (isOctetSet_either (isOctetSet_span _)
      (isOctetSet_either (isOctetSet_span _) isOctetSet_nothing))
  case hexdig =>
    refine .octetSet _ rfl (IsOctetSet.congr ?_ fun _ => has_hexDigits_iff)
    exact isOctetSet_either (isOctetSet_span _) <|
      isOctetSet_either (isOctetSet_letter rfl rfl) <|
      isOctetSet_either (isOctetSet_letter rfl rfl) <|
      isOctetSet_either (isOctetSet_letter rfl rfl) <|
      isOctetSet_either (isOctetSet_letter rfl rfl) <|
      isOctetSet_either (isOctetSet_letter rfl rfl) <|
      isOctetSet_either (isOctetSet_letter rfl rfl) isOctetSet_nothing
  case bit =>
    refine .octetSet _ rfl (IsOctetSet.congr ?_ fun _ => has_bits_iff)
    exact isOctetSet_either (isOctetSet_single _)
      (isOctetSet_either (isOctetSet_single _) isOctetSet_nothing)
  case crlf =>
    exact .lineEnd rfl rfl
  case wsp =>
    exact .octetSet _ rfl (isOctetSet_either (isOctetSet_single _)
      (isOctetSet_either (isOctetSet_single _) isOctetSet_nothing))
  case ctl =>
    exact .octetSet _ rfl (isOctetSet_either (isOctetSet_span _)
      (isOctetSet_either (isOctetSet_single _) isOctetSet_nothing))
  case digit => exact .octetSet _ rfl (isOctetSet_span _)
  case sp => exact .octetSet _ rfl (isOctetSet_single _)
  case htab => exact .octetSet _ rfl (isOctetSet_single _)
  case cr => exact .octetSet _ rfl (isOctetSet_single _)
  case lf => exact .octetSet _ rfl (isOctetSet_single _)
  case dquote => exact .octetSet _ rfl (isOctetSet_single _)
  case vchar => exact .octetSet _ rfl (isOctetSet_span _)
  case char => exact .octetSet _ rfl (isOctetSet_span _)
  case octet => exact .octetSet _ rfl (isOctetSet_span _)

/-! ## Words of core rules -/

theorem derives_lineEnd_iff {grammar : Option Grammar} {word : Octets} :
    Derives grammar (.sequence [single 0x0D, single 0x0A]) word ↔
      word = lineEnd := by
  simp [derives_sequence_cons_iff, derives_sequence_nil_iff, single,
    derives_terminal_iff, Terminal.accepts, lineEnd]

section Words

variable {rule : Rule} {grammar : Option Grammar} {word : Octets}

/-- The language of a core rule is the one that is listed. -/
theorem derives_iff_hasWord (member : rule ∈ rules) :
    Derives grammar rule.element word ↔ hasWord rule.key word = true := by
  cases listed_rules rule member with
  | octetSet intervals listed isSet =>
      -- No set of single octets is listed for the line end.
      have other : rule.key ≠ lineEndName := by
        intro same
        rw [same] at listed
        cases listed
      rw [hasWord_iff other, isSet.derives_iff_exists]
      simp only [hasOctet_iff listed]
  | lineEnd named shape =>
      rw [shape, derives_lineEnd_iff, named, hasWord_lineEndName_iff]

/-- All words of a core rule have the same length. -/
theorem exists_fixedWidth (member : rule ∈ rules) :
    ∃ width, FixedWidth rule.element width := by
  cases listed_rules rule member with
  | octetSet intervals listed isSet =>
      exact ⟨1, isSet.fixed⟩
  | lineEnd named shape =>
      rw [shape]
      exact ⟨2, .inTurn (.terminal _) (.inTurn (.terminal _) .nothing)⟩

end Words

theorem size_le_defaultLimit :
    ∀ rule ∈ rules, rule.element.size ≤ defaultLimit := by
  decide

/-- The keys of the core rules are the names that are listed. -/
theorem mem_keys_iff {key : Octets} :
    key ∈ rules.map Rule.key ↔ key ∈ names := by
  have listed : ∀ key ∈ rules.map Rule.key, key ∈ names := by
    decide
  have defined : ∀ key ∈ names, key ∈ rules.map Rule.key := by
    decide
  exact ⟨listed key, defined key⟩

end Core

/-- The grammar of the core rules defines their names, in any spelling. -/
theorem Grammar.defines_core_iff {name : Octets} :
    core.defines name = true ↔ foldCase name ∈ Core.names := by
  rw [core, defines_ofRules_iff, Core.mem_keys_iff]

/-- A rule that is fetched from the grammar of the core rules is one of them. -/
theorem Grammar.mem_of_fetch_core
    {name : Octets} {rule : Rule} (found : core.fetch name = .ok rule) :
    rule ∈ Core.rules ∧ rule.key = foldCase name := by
  unfold fetch at found
  split at found
  · next filedRule filed =>
      cases found
      exact ⟨mem_of_find?_ofRules filed, key_of_find? filed⟩
  · cases found

/-- With the usual limit, a check against a core rule ends in a verdict, and the
verdict is right. -/
theorem Conformance.validateNamed_core_adjudged
    {options : Options} {name input : Octets} {rule : Rule}
    (fits : input.length < UInt64.size)
    (limit : defaultLimit ≤ options.limit)
    (found : Grammar.core.fetch name = .ok rule) :
    Adjudged (some .core) rule input
      (validateNamed options .core name input).outcome := by
  obtain ⟨member, _⟩ := Grammar.mem_of_fetch_core found
  obtain ⟨width, fixed⟩ := Core.exists_fixedWidth member
  rw [outcome_validateNamed found]
  exact validate_adjudged fits (Place.holds_of_fetch found) fixed
    (Nat.le_trans (Core.size_le_defaultLimit rule member) limit)

end AbnfMatching
