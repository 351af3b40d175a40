import AbnfMatching.Element.Normal

/-!
# Numerals and terminals in a text

The text of an element is put together from the texts of numerals, names and
terminals. Each of them can be told from the octets alone, and so can the place
where it ends, as long as what follows does not look like more of it.
-/

namespace AbnfMatching

def space : UInt8 := 0x20

def percent : UInt8 := 0x25

def leftParenthesis : UInt8 := 0x28

def rightParenthesis : UInt8 := 0x29

def asterisk : UInt8 := 0x2A

def hyphen : UInt8 := 0x2D

def dot : UInt8 := 0x2E

def slash : UInt8 := 0x2F

def leftBracket : UInt8 := 0x5B

def rightBracket : UInt8 := 0x5D

/-- The octets of the decimal digits. -/
def isDigit (octet : UInt8) : Bool :=
  0x30 ≤ octet && octet ≤ 0x39

/-- The octets of the letters, capital or small. -/
def isLetter (octet : UInt8) : Bool :=
  isCapital octet || (0x61 ≤ octet && octet ≤ 0x7A)

/-- The octets that may stand in a rule name after its first letter. -/
def isNameOctet (octet : UInt8) : Bool :=
  isLetter octet || isDigit octet || octet == hyphen

/-- The name is a letter followed by letters, digits and hyphens. -/
def RuleName.IsPlain (name : RuleName) : Prop :=
  ∃ first rest, name.spelling = first :: rest ∧ isLetter first = true ∧
    ∀ octet ∈ rest, isNameOctet octet = true

/-! ## Spans of one kind -/

/-- The octets do not begin with one of the kind. -/
def BeginsOutside (kind : UInt8 → Bool) (rest : Octets) : Prop :=
  ∀ octet ∈ rest.head?, kind octet = false

section Spans

variable {kind : UInt8 → Bool} {left right rest rest' : Octets}

theorem takeWhile_append_of_beginsOutside
    (ofKind : ∀ octet ∈ left, kind octet = true)
    (outside : BeginsOutside kind rest) :
    (left ++ rest).takeWhile kind = left := by
  rw [List.takeWhile_append_of_pos ofKind]
  cases rest with
  | nil =>
      simp
  | cons head tail =>
      have stops : kind head = false := outside head rfl
      simp [stops]

/-- Where octets of a kind end, the text is divided in one way only. -/
theorem append_inj_of_kind
    (leftKind : ∀ octet ∈ left, kind octet = true)
    (rightKind : ∀ octet ∈ right, kind octet = true)
    (outside : BeginsOutside kind rest)
    (outside' : BeginsOutside kind rest')
    (same : left ++ rest = right ++ rest') :
    left = right ∧ rest = rest' := by
  have equal : left = right := by
    rw [← takeWhile_append_of_beginsOutside leftKind outside, same,
      takeWhile_append_of_beginsOutside rightKind outside']
  subst equal
  exact ⟨rfl, List.append_cancel_left same⟩

end Spans

/-! ## Numerals -/

theorem isDigit_iff {octet : UInt8} :
    isDigit octet = true ↔ 0x30 ≤ octet.toNat ∧ octet.toNat ≤ 0x39 := by
  simp [isDigit, UInt8.le_iff_toNat_le]

/-- The octet of a digit is its code. -/
theorem toNat_toUInt8_of_isDigit
    {digit : Char} (decimalDigit : digit.isDigit = true) :
    digit.toUInt8.toNat = digit.toNat ∧
      0x30 ≤ digit.toNat ∧ digit.toNat ≤ 0x39 := by
  simp only [Char.isDigit, Bool.and_eq_true, decide_eq_true_eq,
    UInt32.le_iff_toNat_le] at decimalDigit
  have low : 0x30 ≤ digit.toNat := decimalDigit.1
  have high : digit.toNat ≤ 0x39 := decimalDigit.2
  have small : digit.val.toNat < 2 ^ 8 := by
    change digit.toNat < 2 ^ 8
    omega
  refine ⟨?_, low, high⟩
  rw [Char.toUInt8, UInt32.toNat_toUInt8]
  exact Nat.mod_eq_of_lt small

theorem isDigit_of_mem_decimal
    {count : Nat} {octet : UInt8} (member : octet ∈ decimal count) :
    isDigit octet = true := by
  obtain ⟨digit, digitMember, rfl⟩ := List.mem_map.mp member
  have decimalDigit : digit.isDigit = true :=
    Nat.isDigit_of_mem_toDigits (by decide) (by decide) digitMember
  obtain ⟨code, low, high⟩ := toNat_toUInt8_of_isDigit decimalDigit
  rw [isDigit_iff, code]
  exact ⟨low, high⟩

theorem decimal_ne_nil (count : Nat) :
    decimal count ≠ [] := by
  simp [decimal, Nat.toDigits_ne_nil]

/-- The digits of a numeral tell the number. -/
theorem decimal_injective :
    Function.Injective decimal := by
  intro left right same
  have digits : ∀ count : Nat,
      (decimal count).map (fun octet => Char.ofNat octet.toNat) =
        Nat.toDigits 10 count := by
    intro count
    rw [decimal, List.map_map]
    refine (List.map_congr_left ?_).trans (List.map_id _)
    intro digit member
    have decimalDigit : digit.isDigit = true :=
      Nat.isDigit_of_mem_toDigits (by decide) (by decide) member
    obtain ⟨code, _, _⟩ := toNat_toUInt8_of_isDigit decimalDigit
    rw [Function.comp_apply, code, Char.ofNat_toNat, id]
  have sameDigits : Nat.toDigits 10 left = Nat.toDigits 10 right := by
    rw [← digits, ← digits, same]
  have value : ∀ count : Nat,
      Nat.ofDigitChars 10 (Nat.toDigits 10 count) 0 = count :=
    fun _ => Nat.ofDigitChars_ten_toDigits
  rw [← value left, sameDigits, value right]

/-! ## Bounds -/

namespace Bounds

/-- The octets of which the text of bounds is made. -/
def isCountOctet (octet : UInt8) : Bool :=
  isDigit octet || octet == asterisk

/-- The text of the lower end where it does not stand alone. -/
def lowerText (minimum : Nat) : Octets :=
  if minimum = 0 then [] else decimal minimum

def upperText : Option Nat → Octets
  | none => []
  | some maximum => decimal maximum

section Text

variable {bounds : Bounds}

theorem text_exact (exact : bounds.maximum = some bounds.minimum) :
    bounds.text = decimal bounds.minimum := by
  rw [text, if_pos exact]

theorem text_range (range : bounds.maximum ≠ some bounds.minimum) :
    bounds.text =
      lowerText bounds.minimum ++ asterisk :: upperText bounds.maximum := by
  rw [text, if_neg range, lowerText, upperText.eq_def, List.append_assoc]
  rfl

theorem isDigit_of_mem_lowerText
    {minimum : Nat} {octet : UInt8} (member : octet ∈ lowerText minimum) :
    isDigit octet = true := by
  unfold lowerText at member
  split at member
  · cases member
  · exact isDigit_of_mem_decimal member

theorem isDigit_of_mem_upperText
    {maximum : Option Nat} {octet : UInt8}
    (member : octet ∈ upperText maximum) :
    isDigit octet = true := by
  cases maximum with
  | none => cases member
  | some limit => exact isDigit_of_mem_decimal member

theorem lowerText_injective :
    Function.Injective lowerText := by
  intro left right same
  unfold lowerText at same
  split at same <;> split at same
  · omega
  · exact absurd same.symm (decimal_ne_nil right)
  · exact absurd same (decimal_ne_nil left)
  · exact decimal_injective same

theorem upperText_injective :
    Function.Injective upperText := by
  intro left right same
  cases left with
  | none =>
      cases right with
      | none => rfl
      | some limit => exact absurd same.symm (decimal_ne_nil limit)
  | some limit =>
      cases right with
      | none => exact absurd same (decimal_ne_nil limit)
      | some other => exact congrArg some (decimal_injective same)

/-- Only bounds that are not exact have an asterisk in their text. -/
theorem asterisk_mem_text_iff :
    asterisk ∈ bounds.text ↔ bounds.maximum ≠ some bounds.minimum := by
  constructor
  · intro member exact
    rw [text_exact exact] at member
    exact absurd (isDigit_of_mem_decimal member) (by decide)
  · intro range
    rw [text_range range]
    simp

theorem isCountOctet_of_mem_text
    {octet : UInt8} (member : octet ∈ bounds.text) :
    isCountOctet octet = true := by
  rw [isCountOctet, Bool.or_eq_true, beq_iff_eq]
  by_cases exact : bounds.maximum = some bounds.minimum
  · rw [text_exact exact] at member
    exact Or.inl (isDigit_of_mem_decimal member)
  · rw [text_range exact, List.mem_append, List.mem_cons] at member
    rcases member with lower | isAsterisk | upper
    · exact Or.inl (isDigit_of_mem_lowerText lower)
    · exact Or.inr isAsterisk
    · exact Or.inl (isDigit_of_mem_upperText upper)

theorem beginsOutside_asterisk {rest : Octets} :
    BeginsOutside isDigit (asterisk :: rest) := by
  intro octet isHead
  cases isHead
  decide

theorem text_injective :
    Function.Injective text := by
  intro left right same
  have sameForm : left.maximum = some left.minimum ↔
      right.maximum = some right.minimum := by
    have asterisks : asterisk ∈ left.text ↔ asterisk ∈ right.text := by
      rw [same]
    rw [asterisk_mem_text_iff, asterisk_mem_text_iff] at asterisks
    exact Decidable.not_iff_not.mp asterisks
  have ends : left.minimum = right.minimum ∧
      left.maximum = right.maximum := by
    by_cases exact : left.maximum = some left.minimum
    · have rightExact := sameForm.mp exact
      rw [text_exact exact, text_exact rightExact] at same
      have minima := decimal_injective same
      exact ⟨minima, by rw [exact, rightExact, minima]⟩
    · have rightRange := fun rightExact => exact (sameForm.mpr rightExact)
      rw [text_range exact, text_range rightRange] at same
      obtain ⟨lower, upper⟩ := append_inj_of_kind
        (fun _ => isDigit_of_mem_lowerText)
        (fun _ => isDigit_of_mem_lowerText)
        beginsOutside_asterisk beginsOutside_asterisk same
      exact ⟨lowerText_injective lower,
        upperText_injective (List.cons.inj upper).2⟩
  obtain ⟨minimum, maximum, _⟩ := left
  obtain ⟨minimum', maximum', _⟩ := right
  obtain ⟨rfl, rfl⟩ := ends
  rfl

/-- Bounds are told apart from an operand that does not begin with a count. -/
theorem text_append_inj
    {left right : Bounds} {rest rest' : Octets}
    (outside : BeginsOutside isCountOctet rest)
    (outside' : BeginsOutside isCountOctet rest')
    (same : left.text ++ rest = right.text ++ rest') :
    left = right ∧ rest = rest' := by
  obtain ⟨texts, rests⟩ := append_inj_of_kind
    (fun _ => isCountOctet_of_mem_text) (fun _ => isCountOctet_of_mem_text)
    outside outside' same
  exact ⟨text_injective texts, rests⟩

end Text

end Bounds

end AbnfMatching
