import AbnfMatching.Grammar.Basic

/-!
# The language of an element

Apart from any way of matching, an element stands for a set of octet strings.
Rules may refer to each other in circles; their languages are then the least
ones that satisfy all rules together, so a string belongs to an element only if
a finite derivation says so. The equivalences below unfold a derivation by one
step for each kind of element.

A repetition of `count` rounds is the sequence of `count` copies of its
operand.
-/

namespace AbnfMatching

/-- The rule that a name means, if there is a grammar and it has one. -/
def ruleOf (grammar : Option Grammar) (name : RuleName) : Option Rule :=
  grammar.bind fun present => present.lookup? name.spelling

/-- `Derives grammar element word` says that `word` belongs to the language of
`element`, where the rules of `grammar` give the references their meaning. -/
inductive Derives (grammar : Option Grammar) : Element → Octets → Prop
  | terminal {value : Terminal} {word : Octets} :
      value.accepts word = true →
      Derives grammar (.terminal value) word
  | reference {name : RuleName} {rule : Rule} {word : Octets} :
      ruleOf grammar name = some rule →
      Derives grammar rule.element word →
      Derives grammar (.reference name) word
  | nothing :
      Derives grammar (.sequence []) []
  | inTurn {head : Element} {tail : List Element} {first rest : Octets} :
      Derives grammar head first →
      Derives grammar (.sequence tail) rest →
      Derives grammar (.sequence (head :: tail)) (first ++ rest)
  | oneOf {branch : Element} {branches : List Element} {word : Octets} :
      branch ∈ branches →
      Derives grammar branch word →
      Derives grammar (.alternation branches) word
  | absent {body : Element} :
      Derives grammar (.option body) []
  | present {body : Element} {word : Octets} :
      Derives grammar body word →
      Derives grammar (.option body) word
  | repeated
      {bounds : Bounds} {body : Element} {count : Nat} {word : Octets} :
      bounds.Allows count →
      Derives grammar (.sequence (List.replicate count body)) word →
      Derives grammar (.repetition bounds body) word

variable {grammar : Option Grammar}

theorem derives_terminal_iff {value : Terminal} {word : Octets} :
    Derives grammar (.terminal value) word ↔ value.accepts word = true := by
  constructor
  · intro derivation
    cases derivation with
    | terminal accepted => exact accepted
  · exact Derives.terminal

theorem derives_reference_iff {name : RuleName} {word : Octets} :
    Derives grammar (.reference name) word ↔
      ∃ rule, ruleOf grammar name = some rule ∧
        Derives grammar rule.element word := by
  constructor
  · intro derivation
    cases derivation with
    | reference meaning inner => exact ⟨_, meaning, inner⟩
  · intro unfolded
    obtain ⟨rule, meaning, inner⟩ := unfolded
    exact Derives.reference meaning inner

theorem derives_sequence_nil_iff {word : Octets} :
    Derives grammar (.sequence []) word ↔ word = [] := by
  constructor
  · intro derivation
    cases derivation with
    | nothing => rfl
  · intro empty
    subst empty
    exact Derives.nothing

theorem derives_sequence_cons_iff
    {head : Element} {tail : List Element} {word : Octets} :
    Derives grammar (.sequence (head :: tail)) word ↔
      ∃ first rest, word = first ++ rest ∧
        Derives grammar head first ∧
        Derives grammar (.sequence tail) rest := by
  constructor
  · intro derivation
    cases derivation with
    | inTurn headDerivation tailDerivation =>
        exact ⟨_, _, rfl, headDerivation, tailDerivation⟩
  · intro unfolded
    obtain ⟨first, rest, rfl, headDerivation, tailDerivation⟩ := unfolded
    exact Derives.inTurn headDerivation tailDerivation

theorem derives_alternation_iff
    {branches : List Element} {word : Octets} :
    Derives grammar (.alternation branches) word ↔
      ∃ branch ∈ branches, Derives grammar branch word := by
  constructor
  · intro derivation
    cases derivation with
    | oneOf member inner => exact ⟨_, member, inner⟩
  · intro unfolded
    obtain ⟨branch, member, inner⟩ := unfolded
    exact Derives.oneOf member inner

theorem derives_option_iff {body : Element} {word : Octets} :
    Derives grammar (.option body) word ↔
      word = [] ∨ Derives grammar body word := by
  constructor
  · intro derivation
    cases derivation with
    | absent => exact Or.inl rfl
    | present inner => exact Or.inr inner
  · intro unfolded
    rcases unfolded with rfl | inner
    · exact Derives.absent
    · exact Derives.present inner

theorem derives_repetition_iff
    {bounds : Bounds} {body : Element} {word : Octets} :
    Derives grammar (.repetition bounds body) word ↔
      ∃ count, bounds.Allows count ∧
        Derives grammar (.sequence (List.replicate count body)) word := by
  constructor
  · intro derivation
    cases derivation with
    | repeated allowed rounds => exact ⟨_, allowed, rounds⟩
  · intro unfolded
    obtain ⟨count, allowed, rounds⟩ := unfolded
    exact Derives.repeated allowed rounds

end AbnfMatching
