import AbnfMatching.Octets.Basic

/-!
# Case folding

Rule names and case-insensitive literals are compared up to ASCII letter case.
Folding sends the 26 capital letters to their small counterparts and leaves
every other octet alone, the octets above `0x7F` included.
-/

namespace AbnfMatching

/-- The capital letters `A` to `Z`. -/
def isCapital (octet : UInt8) : Bool :=
  0x41 ≤ octet && octet ≤ 0x5A

/-- Replace a capital letter by the small letter, 32 places further on. -/
def foldOctet (octet : UInt8) : UInt8 :=
  if isCapital octet then octet + 0x20 else octet

def foldCase (bytes : Octets) : Octets :=
  bytes.map foldOctet

/-- Two strings are equal up to letter case when they fold to the same
string. -/
def sameFolded (left right : Octets) : Bool :=
  foldCase left == foldCase right

@[simp]
theorem foldCase_nil :
    foldCase [] = [] :=
  rfl

@[simp]
theorem foldCase_cons (head : UInt8) (tail : Octets) :
    foldCase (head :: tail) = foldOctet head :: foldCase tail :=
  rfl

@[simp]
theorem length_foldCase (bytes : Octets) :
    (foldCase bytes).length = bytes.length := by
  simp [foldCase]

@[simp]
theorem foldCase_eq_nil_iff {bytes : Octets} :
    foldCase bytes = [] ↔ bytes = [] := by
  simp [foldCase]

/-- The capital letters lie between `0x41` and `0x5A`. -/
theorem isCapital_iff {octet : UInt8} :
    isCapital octet = true ↔ 0x41 ≤ octet.toNat ∧ octet.toNat ≤ 0x5A := by
  simp [isCapital, UInt8.le_iff_toNat_le]

theorem toNat_foldOctet {octet : UInt8} :
    (foldOctet octet).toNat =
      if 0x41 ≤ octet.toNat ∧ octet.toNat ≤ 0x5A then octet.toNat + 0x20
      else octet.toNat := by
  simp only [foldOctet, isCapital_iff]
  split
  · rw [UInt8.toNat_add]
    exact Nat.mod_eq_of_lt (by simp; omega)
  · rfl

theorem isCapital_foldOctet (octet : UInt8) :
    isCapital (foldOctet octet) = false := by
  rw [Bool.eq_false_iff, ne_eq, isCapital_iff, toNat_foldOctet]
  split <;> omega

/-- A folded octet is no capital, so folding again changes nothing. -/
@[simp]
theorem foldOctet_foldOctet (octet : UInt8) :
    foldOctet (foldOctet octet) = foldOctet octet := by
  rw [foldOctet, isCapital_foldOctet]
  simp

@[simp]
theorem foldCase_foldCase (bytes : Octets) :
    foldCase (foldCase bytes) = foldCase bytes := by
  simp [foldCase]

end AbnfMatching
