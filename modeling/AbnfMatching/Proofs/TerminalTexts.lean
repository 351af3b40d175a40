import AbnfMatching.Proofs.Tokens

/-!
# What the text of a terminal tells

Up to the normal form, a terminal can be told from its text: a quoted literal
ends at its second quote, and in hexadecimal every octet takes two digits, so
that dots and a hyphen stand where they must. What follows the text begins with
a space, if there is anything.
-/

namespace AbnfMatching

/-- The octets are none or begin with a space. -/
def BeginsWithSpace (rest : Octets) : Prop :=
  ∀ octet ∈ rest.head?, octet = space

theorem beginsWithSpace_nil :
    BeginsWithSpace [] := by
  simp [BeginsWithSpace]

theorem beginsWithSpace_cons (rest : Octets) :
    BeginsWithSpace (space :: rest) := by
  simp [BeginsWithSpace]

theorem BeginsWithSpace.not_cons
    {octet : UInt8} {rest : Octets} (spaced : BeginsWithSpace (octet :: rest))
    (different : octet ≠ space) :
    False :=
  different (spaced octet rfl)

theorem BeginsWithSpace.beginsOutside
    {kind : UInt8 → Bool} {rest : Octets} (spaced : BeginsWithSpace rest)
    (noSpace : kind space = false) :
    BeginsOutside kind rest := by
  intro octet isHead
  rw [spaced octet isHead]
  exact noSpace

/-- Joined texts are the first one and, after it, each further one behind the
separator. -/
theorem intercalate_cons (separator first : Octets) (more : List Octets) :
    separator.intercalate (first :: more) =
      first ++ more.flatMap (separator ++ ·) := by
  induction more generalizing first with
  | nil =>
      simp [List.intercalate]
  | cons next more inductionHypothesis =>
      have joined := inductionHypothesis next
      simp only [List.intercalate, List.intersperse_cons_cons,
        List.flatten_cons, List.flatMap_cons, List.append_assoc] at joined ⊢
      rw [joined]

/-! ## Hexadecimal -/

theorem toNat_hexDigit {value : UInt8} (small : value.toNat < 16) :
    (hexDigit value).toNat =
      if value.toNat < 10 then 0x30 + value.toNat else 0x37 + value.toNat := by
  unfold hexDigit
  have decimalDigit : value < 10 ↔ value.toNat < 10 := UInt8.lt_iff_toNat_lt
  by_cases below : value.toNat < 10
  · rw [if_pos (decimalDigit.mpr below), if_pos below, UInt8.toNat_add]
    exact Nat.mod_eq_of_lt (by simp; omega)
  · rw [if_neg (fun isBelow => below (decimalDigit.mp isBelow)),
      if_neg below, UInt8.toNat_add]
    exact Nat.mod_eq_of_lt (by simp; omega)

theorem hexDigit_inj
    {left right : UInt8} (leftSmall : left.toNat < 16)
    (rightSmall : right.toNat < 16) (same : hexDigit left = hexDigit right) :
    left = right := by
  have codes := congrArg UInt8.toNat same
  rw [toNat_hexDigit leftSmall, toNat_hexDigit rightSmall] at codes
  apply UInt8.toNat.inj
  split at codes <;> split at codes <;> omega

theorem hexPair_injective :
    Function.Injective hexPair := by
  intro left right same
  have digits : hexDigit (left / 16) = hexDigit (right / 16) ∧
      hexDigit (left % 16) = hexDigit (right % 16) := by
    simpa [hexPair] using same
  have leftSize := left.toNat_lt
  have rightSize := right.toNat_lt
  have quotient : ∀ octet : UInt8, (octet / 16).toNat = octet.toNat / 16 :=
    fun octet => UInt8.toNat_div octet 16
  have remainder : ∀ octet : UInt8, (octet % 16).toNat = octet.toNat % 16 :=
    fun octet => UInt8.toNat_mod octet 16
  have high := congrArg UInt8.toNat <| hexDigit_inj
    (by rw [quotient]; omega) (by rw [quotient]; omega) digits.1
  have low := congrArg UInt8.toNat <| hexDigit_inj
    (by rw [remainder]; omega) (by rw [remainder]; omega) digits.2
  rw [quotient, quotient] at high
  rw [remainder, remainder] at low
  apply UInt8.toNat.inj
  omega

theorem hexPair_append_inj
    {left right : UInt8} {rest rest' : Octets}
    (same : hexPair left ++ rest = hexPair right ++ rest') :
    left = right ∧ rest = rest' := by
  obtain ⟨pairs, rests⟩ := List.append_inj same rfl
  exact ⟨hexPair_injective pairs, rests⟩

/-- Octets in hexadecimal, each behind a dot. -/
def dotted (bytes : Octets) : Octets :=
  bytes.flatMap fun octet => dot :: hexPair octet

theorem dotted_append_inj
    {left right rest rest' : Octets}
    (spaced : BeginsWithSpace rest) (spaced' : BeginsWithSpace rest')
    (same : dotted left ++ rest = dotted right ++ rest') :
    left = right ∧ rest = rest' := by
  induction left generalizing right with
  | nil =>
      cases right with
      | nil =>
          exact ⟨rfl, same⟩
      | cons other more =>
          have isRest : rest = dotted (other :: more) ++ rest' := same
          rw [isRest] at spaced
          exact (spaced.not_cons (by decide)).elim
  | cons octet tail inductionHypothesis =>
      cases right with
      | nil =>
          have isRest : dotted (octet :: tail) ++ rest = rest' := same
          rw [← isRest] at spaced'
          exact (spaced'.not_cons (by decide)).elim
      | cons other more =>
          simp only [dotted, List.flatMap_cons, List.cons_append,
            List.append_assoc, List.cons.injEq, true_and] at same
          obtain ⟨rfl, tails⟩ := hexPair_append_inj same
          obtain ⟨rfl, rests⟩ := inductionHypothesis tails
          exact ⟨rfl, rests⟩

/-! ## Terminals -/

namespace Terminal

/-- A terminal in normal form and its text. -/
inductive Shape : Terminal → Octets → Prop
  | quoted {bytes : Octets} (letterCase : LetterCase) :
      bytes.all isQuotable = true →
      Shape (.literal bytes letterCase)
        (letterCase.mark ++ doubleQuote :: (bytes ++ [doubleQuote]))
  | spelled (first : UInt8) (more : Octets) :
      Shape (spelledOut (first :: more))
        (hexMark ++ (hexPair first ++ dotted more))
  | range (interval : OctetRange) :
      Shape (.range interval)
        (hexMark ++ (hexPair interval.lower ++
          hyphen :: hexPair interval.upper))

theorem shape (value : Terminal) : Shape value.normal value.text := by
  cases value with
  | literal bytes letterCase =>
      rw [normal, text]
      by_cases quotable : bytes.all isQuotable = true
      · rw [if_pos quotable, if_pos quotable]
        exact .quoted letterCase quotable
      · rw [if_neg quotable, if_neg quotable]
        cases bytes with
        | nil =>
            exact absurd rfl quotable
        | cons first more =>
            rw [List.map_cons, intercalate_cons, List.flatMap_map]
            exact .spelled first more
  | octet value =>
      exact .spelled value []
  | range interval =>
      rw [normal, text, List.append_assoc, List.append_assoc]
      exact .range interval

section Shape

variable {left right : Terminal} {text text' rest rest' : Octets}

/-- The octets of a quoted literal end at its second quote. -/
theorem quoted_append_inj
    {bytes bytes' : Octets}
    (quotable : bytes.all isQuotable = true)
    (quotable' : bytes'.all isQuotable = true)
    (same : bytes ++ doubleQuote :: rest =
      bytes' ++ doubleQuote :: rest') :
    bytes = bytes' ∧ rest = rest' := by
  have outside : ∀ tail : Octets,
      BeginsOutside isQuotable (doubleQuote :: tail) := by
    intro tail octet isHead
    cases isHead
    decide
  obtain ⟨sameBytes, rests⟩ := append_inj_of_kind
    (fun octet => List.all_eq_true.mp quotable octet)
    (fun octet => List.all_eq_true.mp quotable' octet)
    (outside rest) (outside rest') same
  exact ⟨sameBytes, (List.cons.inj rests).2⟩

theorem quoted_ne_hexadecimal
    {letterCase : LetterCase} {octets octets' : Octets} :
    letterCase.mark ++ doubleQuote :: octets ≠ hexMark ++ octets' := by
  cases letterCase with
  | sensitive =>
      intro same
      have seconds := (List.cons.inj (List.cons.inj same).2).1
      exact absurd seconds (by decide)
  | insensitive =>
      intro same
      exact absurd (List.cons.inj same).1 (by decide)

/-- A hyphen after the first two digits makes the difference between a range and
single octets. -/
theorem dotted_ne_hyphen
    {more octets : Octets} (spaced : BeginsWithSpace rest) :
    dotted more ++ rest ≠ hyphen :: octets := by
  intro same
  cases more with
  | nil =>
      have isRest : rest = hyphen :: octets := same
      rw [isRest] at spaced
      exact spaced.not_cons (by decide)
  | cons octet tail =>
      exact absurd (List.cons.inj same).1 (by decide)

theorem mark_append_inj
    {letterCase letterCase' : LetterCase} {octets octets' : Octets}
    (same : letterCase.mark ++ doubleQuote :: octets =
      letterCase'.mark ++ doubleQuote :: octets') :
    letterCase = letterCase' ∧ octets = octets' := by
  cases letterCase <;> cases letterCase'
  · exact ⟨rfl, (List.cons.inj (List.append_cancel_left same)).2⟩
  · exact absurd (List.cons.inj same).1 (by decide)
  · exact absurd (List.cons.inj same).1 (by decide)
  · exact ⟨rfl, (List.cons.inj same).2⟩

theorem Shape.append_inj
    (shape : Shape left text) (shape' : Shape right text')
    (spaced : BeginsWithSpace rest) (spaced' : BeginsWithSpace rest')
    (same : text ++ rest = text' ++ rest') :
    left = right ∧ rest = rest' := by
  cases shape with
  | quoted letterCase quotable =>
      cases shape' with
      | quoted letterCase' quotable' =>
          simp only [List.append_assoc, List.cons_append] at same
          obtain ⟨rfl, literals⟩ := mark_append_inj same
          obtain ⟨rfl, rests⟩ := quoted_append_inj quotable quotable' literals
          exact ⟨rfl, rests⟩
      | spelled first' more' =>
          simp only [List.append_assoc, List.cons_append] at same
          exact absurd same quoted_ne_hexadecimal
      | range interval' =>
          simp only [List.append_assoc, List.cons_append] at same
          exact absurd same quoted_ne_hexadecimal
  | spelled first more =>
      cases shape' with
      | quoted letterCase' quotable' =>
          simp only [List.append_assoc, List.cons_append] at same
          exact absurd same.symm quoted_ne_hexadecimal
      | spelled first' more' =>
          simp only [List.append_assoc] at same
          obtain ⟨rfl, mores⟩ :=
            hexPair_append_inj (List.append_cancel_left same)
          obtain ⟨rfl, rests⟩ := dotted_append_inj spaced spaced' mores
          exact ⟨rfl, rests⟩
      | range interval' =>
          simp only [List.append_assoc] at same
          obtain ⟨_, mores⟩ :=
            hexPair_append_inj (List.append_cancel_left same)
          exact absurd mores (dotted_ne_hyphen spaced)
  | range interval =>
      cases shape' with
      | quoted letterCase' quotable' =>
          simp only [List.append_assoc, List.cons_append] at same
          exact absurd same.symm quoted_ne_hexadecimal
      | spelled first' more' =>
          simp only [List.append_assoc] at same
          obtain ⟨_, mores⟩ :=
            hexPair_append_inj (List.append_cancel_left same)
          exact absurd mores.symm (dotted_ne_hyphen spaced')
      | range interval' =>
          simp only [List.append_assoc] at same
          obtain ⟨lowers, uppers⟩ :=
            hexPair_append_inj (List.append_cancel_left same)
          obtain ⟨sameUpper, rests⟩ :=
            hexPair_append_inj (List.cons.inj uppers).2
          refine ⟨congrArg Terminal.range ?_, rests⟩
          cases interval
          cases interval'
          simp_all

end Shape

/-- Up to the normal form, a terminal is told from its text and from where the
text ends. -/
theorem text_append_inj
    {left right : Terminal} {rest rest' : Octets}
    (spaced : BeginsWithSpace rest) (spaced' : BeginsWithSpace rest')
    (same : left.text ++ rest = right.text ++ rest') :
    left.normal = right.normal ∧ rest = rest' :=
  left.shape.append_inj right.shape spaced spaced' same

end Terminal

end AbnfMatching
