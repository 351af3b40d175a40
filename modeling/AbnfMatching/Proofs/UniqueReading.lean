import AbnfMatching.Proofs.ElementTexts

/-!
# Elements are read in one way only

Two legible elements with the same text have the same normal form. The proof
goes by induction on one of them. An operand is followed by a space or by
nothing, and the text of a whole element by a space and a closing bracket or by
nothing; under these conditions the octets tell what the operand or the element
is and where its text ends.
-/

namespace AbnfMatching

/-! ## Openings -/

/-- What kind of operand a first octet announces. -/
inductive Opening where
  | name
  | count
  | terminal
  | bracket
  | parenthesis
  | other
deriving DecidableEq

def openingOf (octet : UInt8) : Opening :=
  if isLetter octet then .name
  else if Bounds.isCountOctet octet then .count
  else if octet = doubleQuote ∨ octet = percent then .terminal
  else if octet = leftBracket then .bracket
  else if octet = leftParenthesis then .parenthesis
  else .other

theorem openingOf_of_isCountOctet
    {octet : UInt8} (counts : Bounds.isCountOctet octet = true) :
    openingOf octet = .count := by
  have noLetter : isLetter octet = false := by
    simp only [Bounds.isCountOctet, Bool.or_eq_true, isDigit_iff,
      beq_iff_eq] at counts
    have codes : octet.toNat ≤ 0x39 := by
      rcases counts with digit | rfl
      · exact digit.2
      · decide
    simp only [isLetter, isCapital, UInt8.le_iff_toNat_le,
      Bool.or_eq_false_iff, Bool.and_eq_false_iff, decide_eq_false_iff_not]
    simp
    omega
  rw [openingOf, noLetter, if_neg (by decide), if_pos counts]

theorem Terminal.exists_opening (value : Terminal) :
    ∃ first rest, value.text = first :: rest ∧
      openingOf first = .terminal := by
  have shape := value.shape
  generalize value.normal = normal at shape
  generalize value.text = text at shape ⊢
  cases shape with
  | quoted letterCase quotable =>
      cases letterCase with
      | sensitive => exact ⟨percent, _, rfl, by decide⟩
      | insensitive => exact ⟨doubleQuote, _, rfl, by decide⟩
  | spelled first more =>
      exact ⟨percent, _, rfl, by decide⟩
  | range interval =>
      exact ⟨percent, _, rfl, by decide⟩

theorem Bounds.exists_opening (bounds : Bounds) :
    ∃ first rest, bounds.text = first :: rest ∧
      openingOf first = .count := by
  cases shape : bounds.text with
  | nil =>
      by_cases exact : bounds.maximum = some bounds.minimum
      · rw [text_exact exact] at shape
        exact absurd shape (decimal_ne_nil _)
      · rw [text_range exact] at shape
        simp at shape
  | cons first rest =>
      have member : first ∈ bounds.text := by
        rw [shape]
        exact List.mem_cons_self
      exact ⟨first, rest, rfl,
        openingOf_of_isCountOctet (isCountOctet_of_mem_text member)⟩

namespace Element

def opening : Element → Opening
  | terminal _ => .terminal
  | reference _ => .name
  | sequence _ => .parenthesis
  | alternation _ => .parenthesis
  | option _ => .bracket
  | repetition _ _ => .count

theorem opening_joint (joint : Joint) (parts : List Element) :
    (joint.element parts).opening = .parenthesis := by
  cases joint <;> rfl

theorem opening_ne_other (element : Element) :
    element.opening ≠ .other := by
  cases element <;> simp [opening]

section Opening

variable {element left right : Element} {rest rest' : Octets}

/-- The first octet of an operand announces its kind. -/
theorem Form.exists_opening
    (form : element.Form) (legible : element.Legible) :
    ∃ first rest, element.operandText = first :: rest ∧
      openingOf first = element.opening := by
  cases form with
  | terminal value =>
      exact value.exists_opening
  | reference name =>
      obtain ⟨first, rest, spelled, letter, _⟩ :=
        legible.plain name (List.mem_singleton_self name)
      exact ⟨first, rest, spelled, by rw [openingOf, if_pos letter]; rfl⟩
  | option body =>
      exact ⟨leftBracket, _, rfl, by rw [opening]; decide⟩
  | repetition bounds body =>
      obtain ⟨first, rest, counted, announced⟩ := bounds.exists_opening
      refine ⟨first, rest ++ body.operandText, ?_, announced⟩
      change bounds.text ++ body.operandText = _
      rw [counted, List.cons_append]
  | nothing =>
      exact ⟨leftParenthesis, _, rfl, by decide⟩
  | group joint first next more =>
      rw [operandText_group, opening_joint]
      exact ⟨leftParenthesis, _, rfl, by decide⟩

theorem Legible.exists_opening (legible : element.Legible) :
    ∃ first rest, element.operandText = first :: rest ∧
      openingOf first = element.peeled.opening := by
  rw [← operandText_peeled]
  exact element.form_peeled.exists_opening legible.peeled

theorem exists_terminal (kind : Opening.terminal = element.opening) :
    ∃ value, element = .terminal value := by
  cases element <;> simp [opening] at kind ⊢

theorem exists_reference (kind : Opening.name = element.opening) :
    ∃ name, element = .reference name := by
  cases element <;> simp [opening] at kind ⊢

theorem exists_option (kind : Opening.bracket = element.opening) :
    ∃ body, element = .option body := by
  cases element <;> simp [opening] at kind ⊢

theorem exists_repetition (kind : Opening.count = element.opening) :
    ∃ bounds body, element = .repetition bounds body := by
  cases element <;> simp [opening] at kind ⊢

/-- Operands whose texts begin alike are of the same kind. -/
theorem opening_eq
    (leftForm : left.Form) (leftLegible : left.Legible)
    (rightForm : right.Form) (rightLegible : right.Legible)
    (same : left.operandText ++ rest = right.operandText ++ rest') :
    left.opening = right.opening := by
  obtain ⟨first, tail, leftText, leftOpening⟩ :=
    leftForm.exists_opening leftLegible
  obtain ⟨first', tail', rightText, rightOpening⟩ :=
    rightForm.exists_opening rightLegible
  rw [leftText, rightText] at same
  rw [← leftOpening, ← rightOpening, (List.cons.inj same).1]

end Opening

/-! ## What follows an element -/

/-- What may follow the text of a whole element: nothing, or a space and a
closing bracket. -/
inductive Closes : Octets → Prop
  | nil : Closes []
  | bracket {octet : UInt8} (rest : Octets) :
      octet = rightParenthesis ∨ octet = rightBracket →
      Closes (space :: octet :: rest)

section Closes

variable {rest : Octets}

theorem Closes.beginsWithSpace (closes : Closes rest) :
    BeginsWithSpace rest := by
  cases closes with
  | nil => exact beginsWithSpace_nil
  | bracket rest _ => exact beginsWithSpace_cons _

theorem Closes.beginsWithSpace_behind
    (closes : Closes rest) (joint : Joint) (operands : List Element) :
    BeginsWithSpace (behind joint.separator operands ++ rest) := by
  cases operands with
  | nil =>
      exact closes.beginsWithSpace
  | cons next more =>
      cases joint <;> exact beginsWithSpace_cons _

/-- A closing bracket is no separator and begins no operand. -/
theorem Closes.ne_behind
    {joint : Joint} {next : Element} {more : List Element}
    {rest' : Octets}
    (closes : Closes rest) (legible : next.Legible) :
    rest ≠ behind joint.separator (next :: more) ++ rest' := by
  obtain ⟨first, tail, nextText, announced⟩ := legible.exists_opening
  have noBracket : ∀ octet,
      octet = rightParenthesis ∨ octet = rightBracket → octet ≠ first := by
    rintro octet isBracket rfl
    apply opening_ne_other next.peeled
    rw [← announced]
    rcases isBracket with rfl | rfl <;> decide
  intro same
  cases closes with
  | nil =>
      cases joint <;> cases same
  | bracket rest isBracket =>
      cases joint with
      | sequence =>
          simp only [behind, List.flatMap_cons, nextText] at same
          have seconds := (List.cons.inj (List.cons.inj same).2).1
          exact noBracket _ isBracket seconds
      | alternation =>
          have seconds := (List.cons.inj (List.cons.inj same).2).1
          rcases isBracket with rfl | rfl <;> exact absurd seconds (by decide)

end Closes

/-! ## Reading -/

/-- As an operand, the element is told from its text and from where the text
ends. -/
def ReadAsOperand (left : Element) : Prop :=
  ∀ (right : Element) (rest rest' : Octets), right.Legible →
    BeginsWithSpace rest → BeginsWithSpace rest' →
    left.operandText ++ rest = right.operandText ++ rest' →
    left.normal = right.normal ∧ rest = rest'

/-- As a whole, the element is told from its text and from where the text
ends. -/
def ReadAsWhole (left : Element) : Prop :=
  ∀ (right : Element) (rest rest' : Octets), right.Legible →
    Closes rest → Closes rest' →
    left.text ++ rest = right.text ++ rest' →
    left.normal = right.normal ∧ rest = rest'

/-- The text of an element is that of one operand or of several joined ones. -/
inductive Layout : Element → Prop
  | single {element operand : Element} :
      operand.Legible → element.text = operand.operandText →
      element.normal = operand.normal →
      Layout element
  | group (joint : Joint) (first next : Element) (more : List Element) :
      Layout (joint.element (first :: next :: more))

section Reading

variable {element left right : Element} {rest rest' : Octets}

theorem Legible.layout (legible : element.Legible) : element.Layout := by
  match element with
  | .terminal value => exact .single legible rfl rfl
  | .reference name => exact .single legible rfl rfl
  | .sequence [] => exact .single legible rfl rfl
  | .sequence [part] =>
      exact .single (legible.part (List.mem_singleton_self part))
        (text_singleton .sequence part) (normal_singleton .sequence part)
  | .sequence (first :: next :: more) =>
      exact .group .sequence first next more
  | .alternation [] => exact .single legible rfl rfl
  | .alternation [branch] =>
      exact .single (legible.part (List.mem_singleton_self branch))
        (text_singleton .alternation branch)
        (normal_singleton .alternation branch)
  | .alternation (first :: next :: more) =>
      exact .group .alternation first next more
  | .option body => exact .single legible rfl rfl
  | .repetition bounds body => exact .single legible rfl rfl

theorem children_joint (joint : Joint) (parts : List Element) :
    (joint.element parts).children = parts := by
  cases joint <;> rfl

/-- It is enough to compare an operand with those from which groups of one
constituent have been taken off. -/
theorem readAsOperand_of_forms
    (compared : ∀ (right : Element) (rest rest' : Octets),
      right.Form → right.Legible →
      BeginsWithSpace rest → BeginsWithSpace rest' →
      left.operandText ++ rest = right.operandText ++ rest' →
      left.normal = right.normal ∧ rest = rest') :
    ReadAsOperand left := by
  intro right rest rest' legible spaced spaced' same
  rw [← operandText_peeled right] at same
  rw [← normal_peeled right]
  exact compared right.peeled rest rest' right.form_peeled legible.peeled
    spaced spaced' same

/-- Elements that are alike as operands are read alike. -/
theorem ReadAsOperand.congr
    (read : ReadAsOperand element)
    (texts : left.operandText = element.operandText)
    (normals : left.normal = element.normal) :
    ReadAsOperand left := by
  intro right rest rest' legible spaced spaced' same
  rw [texts] at same
  rw [normals]
  exact read right rest rest' legible spaced spaced' same

/-- A text of one operand is read like the operand. -/
theorem ReadAsOperand.whole
    (read : ReadAsOperand element)
    (texts : left.text = element.operandText)
    (normals : left.normal = element.normal) :
    ReadAsWhole left := by
  intro right rest rest' legible closes closes' same
  rw [texts] at same
  rw [normals]
  cases legible.layout with
  | single operandLegible rightTexts rightNormals =>
      rw [rightTexts] at same
      rw [rightNormals]
      exact read _ rest rest' operandLegible closes.beginsWithSpace
        closes'.beginsWithSpace same
  | group joint first next more =>
      have partLegible : ∀ part ∈ first :: next :: more, part.Legible :=
        fun part member => legible.part (by rwa [children_joint])
      rw [text_joint, List.append_assoc] at same
      obtain ⟨_, rests⟩ := read first rest _ (partLegible first (by simp))
        closes.beginsWithSpace (closes'.beginsWithSpace_behind joint _) same
      exact absurd rests (closes.ne_behind (partLegible next (by simp)))

/-- What stands behind the first operand of a group is read operand by
operand. -/
theorem behind_append_inj
    {joint : Joint} {operands operands' : List Element}
    (read : ∀ operand ∈ operands, ReadAsOperand operand)
    (legible : ∀ operand ∈ operands, operand.Legible)
    (legible' : ∀ operand ∈ operands', operand.Legible)
    (closes : Closes rest) (closes' : Closes rest')
    (same : behind joint.separator operands ++ rest =
      behind joint.separator operands' ++ rest') :
    operands.map normal = operands'.map normal ∧ rest = rest' := by
  induction operands generalizing operands' with
  | nil =>
      cases operands' with
      | nil =>
          exact ⟨rfl, same⟩
      | cons other more =>
          exact absurd same (closes.ne_behind (legible' other (by simp)))
  | cons operand tail inductionHypothesis =>
      cases operands' with
      | nil =>
          exact absurd same.symm
            (closes'.ne_behind (legible operand (by simp)))
      | cons other more =>
          simp only [behind, List.flatMap_cons, List.append_assoc,
            List.append_cancel_left_eq] at same
          obtain ⟨normals, rests⟩ := read operand (by simp) other _ _
            (legible' other (by simp))
            (closes.beginsWithSpace_behind joint tail)
            (closes'.beginsWithSpace_behind joint more) same
          obtain ⟨tails, restsEqual⟩ := inductionHypothesis
            (fun part member => read part (List.mem_cons_of_mem _ member))
            (fun part member => legible part (List.mem_cons_of_mem _ member))
            (fun part member => legible' part (List.mem_cons_of_mem _ member))
            rests
          rw [List.map_cons, List.map_cons, normals, tails]
          exact ⟨rfl, restsEqual⟩

/-- Two groups that are joined differently differ behind their first
operands. -/
theorem separator_eq_of_behind
    {joint joint' : Joint} {next next' : Element}
    {more more' : List Element}
    (legible : next.Legible) (legible' : next'.Legible)
    (same : behind joint.separator (next :: more) ++ rest =
      behind joint'.separator (next' :: more') ++ rest') :
    joint = joint' := by
  obtain ⟨first, tail, nextText, announced⟩ := legible.exists_opening
  obtain ⟨first', tail', nextText', announced'⟩ := legible'.exists_opening
  have noSlash : ∀ (element : Element) (octet : UInt8),
      openingOf octet = element.peeled.opening → octet ≠ slash := by
    rintro element octet isOpening rfl
    exact opening_ne_other element.peeled isOpening.symm
  cases joint <;> cases joint'
  · rfl
  · simp only [behind, List.flatMap_cons, nextText] at same
    have seconds := (List.cons.inj (List.cons.inj same).2).1
    exact absurd seconds (noSlash next first announced)
  · simp only [behind, List.flatMap_cons, nextText'] at same
    have seconds := (List.cons.inj (List.cons.inj same).2).1
    exact absurd seconds.symm (noSlash next' first' announced')
  · rfl

/-- A group is read if its constituents are. -/
theorem readAsWhole_group
    {joint : Joint} {first next : Element} {more : List Element}
    (read : ∀ part ∈ first :: next :: more, ReadAsOperand part)
    (legible : ∀ part ∈ first :: next :: more, part.Legible) :
    ReadAsWhole (joint.element (first :: next :: more)) := by
  intro right rest rest' rightLegible closes closes' same
  rw [text_joint, List.append_assoc] at same
  cases rightLegible.layout with
  | single operandLegible rightTexts rightNormals =>
      rw [rightTexts] at same
      obtain ⟨_, rests⟩ := read first (by simp) _ _ _ operandLegible
        (closes.beginsWithSpace_behind joint _) closes'.beginsWithSpace same
      exact absurd rests.symm (closes'.ne_behind (legible next (by simp)))
  | group joint' first' next' more' =>
      have legible' : ∀ part ∈ first' :: next' :: more', part.Legible :=
        fun part member => rightLegible.part (by rwa [children_joint])
      rw [text_joint, List.append_assoc] at same
      obtain ⟨firsts, rests⟩ := read first (by simp) _ _ _
        (legible' first' (by simp)) (closes.beginsWithSpace_behind joint _)
        (closes'.beginsWithSpace_behind joint' _) same
      obtain rfl := separator_eq_of_behind (legible next (by simp))
        (legible' next' (by simp)) rests
      obtain ⟨normals, restsEqual⟩ := behind_append_inj
        (fun part member => read part (List.mem_cons_of_mem _ member))
        (fun part member => legible part (List.mem_cons_of_mem _ member))
        (fun part member => legible' part (List.mem_cons_of_mem _ member))
        closes closes' rests
      have mores := List.cons.inj normals
      rw [normal_group, normal_group, firsts, mores.1, mores.2]
      exact ⟨rfl, restsEqual⟩

/-! ### Operands of each form -/

theorem closes_parenthesis (rest : Octets) :
    Closes (octets " )" ++ rest) :=
  .bracket rest (Or.inl rfl)

theorem closes_bracket (rest : Octets) :
    Closes (octets " ]" ++ rest) :=
  .bracket rest (Or.inr rfl)

theorem readAsOperand_terminal
    (value : Terminal) (legible : (terminal value).Legible) :
    ReadAsOperand (.terminal value) := by
  apply readAsOperand_of_forms
  intro right rest rest' form rightLegible spaced spaced' same
  obtain ⟨value', rfl⟩ := exists_terminal <|
    opening_eq (.terminal value) legible form rightLegible same
  obtain ⟨normals, rests⟩ := Terminal.text_append_inj spaced spaced' same
  exact ⟨congrArg Element.terminal normals, rests⟩

theorem isNameOctet_of_mem_spelling
    {name : RuleName} {octet : UInt8} (plain : name.IsPlain)
    (member : octet ∈ name.spelling) :
    isNameOctet octet = true := by
  obtain ⟨first, rest, spelled, letter, others⟩ := plain
  rw [spelled] at member
  rcases List.mem_cons.mp member with rfl | later
  · rw [isNameOctet, letter, Bool.true_or, Bool.true_or]
  · exact others octet later

theorem readAsOperand_reference
    (name : RuleName) (legible : (reference name).Legible) :
    ReadAsOperand (.reference name) := by
  apply readAsOperand_of_forms
  intro right rest rest' form rightLegible spaced spaced' same
  obtain ⟨name', rfl⟩ := exists_reference <|
    opening_eq (.reference name) legible form rightLegible same
  have plain := legible.plain name (List.mem_singleton_self name)
  have plain' := rightLegible.plain name' (List.mem_singleton_self name')
  obtain ⟨spellings, rests⟩ := append_inj_of_kind
    (fun _ => isNameOctet_of_mem_spelling plain)
    (fun _ => isNameOctet_of_mem_spelling plain')
    (spaced.beginsOutside (by decide)) (spaced'.beginsOutside (by decide))
    same
  obtain ⟨spelling, _⟩ := name
  obtain ⟨spelling', _⟩ := name'
  obtain rfl := spellings
  exact ⟨rfl, rests⟩

theorem readAsOperand_option
    {body : Element} (legible : (option body).Legible)
    (read : ReadAsWhole body) :
    ReadAsOperand (.option body) := by
  apply readAsOperand_of_forms
  intro right rest rest' form rightLegible spaced spaced' same
  obtain ⟨body', rfl⟩ := exists_option <|
    opening_eq (.option body) legible form rightLegible same
  have legible' : body'.Legible :=
    rightLegible.part (List.mem_singleton_self body')
  change octets "[ " ++ body.text ++ octets " ]" ++ rest =
    octets "[ " ++ body'.text ++ octets " ]" ++ rest' at same
  simp only [List.append_assoc, List.append_cancel_left_eq] at same
  obtain ⟨normals, rests⟩ := read body' _ _ legible' (closes_bracket rest)
    (closes_bracket rest') same
  exact ⟨congrArg Element.option normals, List.append_cancel_left rests⟩

/-- An operand that is no repetition does not begin with a count. -/
theorem Legible.beginsOutside_count
    {bounds : Bounds} {body : Element}
    (legible : (repetition bounds body).Legible) (rest : Octets) :
    BeginsOutside Bounds.isCountOctet (body.operandText ++ rest) := by
  have bodyLegible : body.Legible :=
    legible.part (List.mem_singleton_self body)
  obtain ⟨first, tail, bodyText, announced⟩ := bodyLegible.exists_opening
  rw [bodyText]
  intro octet isFirst
  cases isFirst
  cases counts : Bounds.isCountOctet first with
  | false =>
      rfl
  | true =>
      rw [openingOf_of_isCountOctet counts] at announced
      obtain ⟨inner, core, peeled⟩ := exists_repetition announced
      have normals := normal_peeled body
      rw [peeled] at normals
      exact absurd normals.symm
        (legible.apart bounds body List.mem_cons_self inner core.normal)

theorem readAsOperand_repetition
    {bounds : Bounds} {body : Element}
    (legible : (repetition bounds body).Legible)
    (read : ReadAsOperand body) :
    ReadAsOperand (.repetition bounds body) := by
  apply readAsOperand_of_forms
  intro right rest rest' form rightLegible spaced spaced' same
  obtain ⟨bounds', body', rfl⟩ := exists_repetition <|
    opening_eq (.repetition bounds body) legible form rightLegible same
  have legible' : body'.Legible :=
    rightLegible.part (List.mem_singleton_self body')
  change bounds.text ++ body.operandText ++ rest =
    bounds'.text ++ body'.operandText ++ rest' at same
  rw [List.append_assoc, List.append_assoc] at same
  obtain ⟨rfl, operands⟩ := Bounds.text_append_inj
    (legible.beginsOutside_count rest)
    (rightLegible.beginsOutside_count rest') same
  obtain ⟨normals, rests⟩ :=
    read body' rest rest' legible' spaced spaced' operands
  exact ⟨congrArg (Element.repetition bounds) normals, rests⟩

/-- Behind the opening parenthesis of a group comes an operand, not the closing
parenthesis. -/
theorem emptyAlternationText_ne_group
    {joint : Joint} {first next : Element} {more : List Element}
    (legible : (joint.element (first :: next :: more)).Legible) :
    emptyAlternationText ++ rest ≠
      (joint.element (first :: next :: more)).operandText ++ rest' := by
  have firstLegible : first.Legible :=
    legible.part (by rw [children_joint]; exact List.mem_cons_self)
  obtain ⟨octet, tail, firstText, announced⟩ := firstLegible.exists_opening
  intro same
  rw [operandText_group, text_joint, firstText] at same
  have thirds :=
    (List.cons.inj (List.cons.inj (List.cons.inj same).2).2).1
  apply opening_ne_other first.peeled
  rw [← announced, ← thirds]
  decide

theorem readAsOperand_nothing
    (legible : (alternation []).Legible) :
    ReadAsOperand (.alternation []) := by
  apply readAsOperand_of_forms
  intro right rest rest' form rightLegible spaced spaced' same
  have kinds := opening_eq .nothing legible form rightLegible same
  cases form with
  | nothing =>
      exact ⟨rfl, List.append_cancel_left same⟩
  | group joint first next more =>
      exact absurd same (emptyAlternationText_ne_group rightLegible)
  | terminal value => cases kinds
  | reference name => cases kinds
  | option body => cases kinds
  | repetition bounds body => cases kinds

theorem readAsOperand_group
    {joint : Joint} {first next : Element} {more : List Element}
    (legible : (joint.element (first :: next :: more)).Legible)
    (read : ReadAsWhole (joint.element (first :: next :: more))) :
    ReadAsOperand (joint.element (first :: next :: more)) := by
  apply readAsOperand_of_forms
  intro right rest rest' form rightLegible spaced spaced' same
  have kinds :=
    opening_eq (.group joint first next more) legible form rightLegible same
  rw [opening_joint] at kinds
  cases form with
  | nothing =>
      exact absurd same.symm (emptyAlternationText_ne_group legible)
  | group joint' first' next' more' =>
      rw [operandText_group, operandText_group] at same
      simp only [List.append_assoc, List.append_cancel_left_eq] at same
      obtain ⟨normals, rests⟩ := read _ _ _ rightLegible
        (closes_parenthesis rest) (closes_parenthesis rest') same
      exact ⟨normals, List.append_cancel_left rests⟩
  | terminal value => cases kinds
  | reference name => cases kinds
  | option body => cases kinds
  | repetition bounds body => cases kinds

theorem read_singleton
    (joint : Joint) {part : Element} (read : ReadAsOperand part) :
    ReadAsOperand (joint.element [part]) ∧
      ReadAsWhole (joint.element [part]) :=
  ⟨read.congr (operandText_singleton joint part) (normal_singleton joint part),
    read.whole (text_singleton joint part) (normal_singleton joint part)⟩

theorem read_group
    (joint : Joint) {first next : Element} {more : List Element}
    (legible : (joint.element (first :: next :: more)).Legible)
    (parts : ∀ part ∈ first :: next :: more, ReadAsOperand part) :
    ReadAsOperand (joint.element (first :: next :: more)) ∧
      ReadAsWhole (joint.element (first :: next :: more)) := by
  have read : ReadAsWhole (joint.element (first :: next :: more)) :=
    readAsWhole_group parts fun part member =>
      legible.part (by rwa [children_joint])
  exact ⟨readAsOperand_group legible read, read⟩

/-- Every legible element is read, as an operand and as a whole. -/
theorem Legible.read (legible : element.Legible) :
    ReadAsOperand element ∧ ReadAsWhole element := by
  -- A group is read as a whole first and from that as an operand; every other
  -- element the other way round.
  induction element using induction_on_children with
  | step element inductionHypothesis =>
      have parts : ∀ part ∈ element.children,
          ReadAsOperand part ∧ ReadAsWhole part :=
        fun part member =>
          inductionHypothesis part member (legible.part member)
      match element with
      | .terminal value =>
          have read := readAsOperand_terminal value legible
          exact ⟨read, read.whole rfl rfl⟩
      | .reference name =>
          have read := readAsOperand_reference name legible
          exact ⟨read, read.whole rfl rfl⟩
      | .option body =>
          have read := readAsOperand_option legible
            (parts body (List.mem_singleton_self body)).2
          exact ⟨read, read.whole rfl rfl⟩
      | .repetition bounds body =>
          have read := readAsOperand_repetition legible
            (parts body (List.mem_singleton_self body)).1
          exact ⟨read, read.whole rfl rfl⟩
      | .sequence [] =>
          have literal : (terminal (.caseless [])).Legible := legible.peeled
          have read := readAsOperand_terminal (.caseless []) literal
          exact ⟨read.congr (by decide) rfl, read.whole (by decide) rfl⟩
      | .alternation [] =>
          have read := readAsOperand_nothing legible
          exact ⟨read, read.whole rfl rfl⟩
      | .sequence [part] =>
          exact read_singleton .sequence
            (parts part (List.mem_singleton_self part)).1
      | .alternation [branch] =>
          exact read_singleton .alternation
            (parts branch (List.mem_singleton_self branch)).1
      | .sequence (first :: next :: more) =>
          exact read_group .sequence legible
            fun part member => (parts part member).1
      | .alternation (first :: next :: more) =>
          exact read_group .alternation legible
            fun part member => (parts part member).1

/-- Legible elements with the same text have the same normal form. -/
theorem Legible.normal_eq
    (legible : left.Legible) (legible' : right.Legible)
    (same : left.text = right.text) :
    left.normal = right.normal := by
  have texts : left.text ++ [] = right.text ++ [] := by
    rw [same]
  exact (legible.read.2 right [] [] legible' .nil .nil texts).1

end Reading

end Element

end AbnfMatching
