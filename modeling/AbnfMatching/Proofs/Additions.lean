import AbnfMatching.Grammar.Core
import AbnfMatching.Proofs.Places
import Mathlib.Data.Finset.Card
import Mathlib.Data.List.Nodup

/-!
# Grammars under additions

A grammar is filled by adding rules one after the other. Whatever it is filled
with, a name means the rule that was added last under its folded spelling and,
if there is none, what it meant before. A grammar is determined by what the
names mean in it, so that rules that have been replaced leave no trace.
-/

namespace AbnfMatching

/-! ## The order of keys -/

/-- The codes of the octets. Comparing strings means comparing their codes, the
first difference being decisive. -/
def codes (bytes : Octets) : List Nat :=
  bytes.map UInt8.toNat

theorem codes_lt_codes_iff {left right : Octets} :
    codes left < codes right ↔ left < right := by
  induction left generalizing right with
  | nil =>
      cases right <;> simp [codes]
  | cons head tail inductionHypothesis =>
      cases right with
      | nil =>
          simp [codes]
      | cons first rest =>
          have tails : tail.map UInt8.toNat < rest.map UInt8.toNat ↔
              tail < rest :=
            inductionHypothesis
          simp only [codes, List.map_cons, List.cons_lt_cons_iff, tails,
            UInt8.lt_iff_toNat_lt, UInt8.toNat_inj]

namespace Grammar

/-! ## The rules of a grammar -/

section Rules

variable {grammar left right : Grammar} {rule : Rule} {key name : Octets}

theorem nodup_keys (grammar : Grammar) :
    grammar.keys.Nodup := by
  have distinct : grammar.rules.Pairwise fun left right =>
      left.key ≠ right.key := by
    apply grammar.ascending.imp
    intro low high below same
    rw [same] at below
    exact List.lt_irrefl high.key below
  exact List.pairwise_map.mpr distinct

/-- A key leads to the one rule that is filed under it. -/
theorem find?_eq_some_iff :
    grammar.find? key = some rule ↔ rule ∈ grammar.rules ∧ rule.key = key := by
  constructor
  · intro found
    exact ⟨List.mem_of_find?_eq_some found, key_of_find? found⟩
  · intro filed
    obtain ⟨member, rfl⟩ := filed
    cases found : grammar.find? rule.key with
    | none =>
        have noRule := List.find?_eq_none.mp found rule member
        simp at noRule
    | some other =>
        have otherMember : other ∈ grammar.rules :=
          List.mem_of_find?_eq_some found
        have same : other = rule :=
          List.inj_on_of_nodup_map grammar.nodup_keys otherMember member
            (key_of_find? found)
        rw [same]

theorem isSome_find?_iff :
    (grammar.find? key).isSome = true ↔ key ∈ grammar.keys := by
  simp only [Option.isSome_iff_exists, find?_eq_some_iff, keys,
    List.mem_map]

/-- The rules of a grammar are those that their own names mean. -/
theorem mem_rules_iff :
    rule ∈ grammar.rules ↔ grammar.lookup? rule.name.spelling = some rule := by
  have filed : grammar.lookup? rule.name.spelling = some rule ↔
      rule ∈ grammar.rules ∧ rule.key = rule.key :=
    find?_eq_some_iff
  simp [filed]

/-- A grammar in which all names mean the same is the same grammar. -/
theorem eq_of_lookup?_eq
    (same : ∀ name, left.lookup? name = right.lookup? name) :
    left = right := by
  have members : ∀ rule, rule ∈ left.rules ↔ rule ∈ right.rules := by
    intro rule
    rw [mem_rules_iff, mem_rules_iff, same]
  have permutation : left.rules.Perm right.rules :=
    (List.perm_ext_iff_of_nodup left.nodup_keys.of_map
      right.nodup_keys.of_map).mpr members
  have equal : left.rules = right.rules := by
    apply permutation.eq_of_pairwise _ left.ascending right.ascending
    intro low high _ _ below above
    exact absurd (List.lt_trans below above) (List.lt_irrefl low.key)
  cases left
  cases right
  simp_all

theorem fetch_eq_ok_iff :
    grammar.fetch name = .ok rule ↔ grammar.lookup? name = some rule := by
  unfold fetch
  cases grammar.lookup? name <;> simp

theorem fetch_eq_error_iff {cause : Fault} :
    grammar.fetch name = .error cause ↔
      grammar.lookup? name = none ∧ cause = .undefinedRule name := by
  unfold fetch
  cases grammar.lookup? name <;> simp [eq_comm]

end Rules

/-! ## Adding rules -/

/-- Of rules that are added one after the other, the latest one of a name,
however the name is spelled. -/
def latest? (rules : List Rule) (name : Octets) : Option Rule :=
  rules.reverse.find? fun rule => sameFolded rule.name.spelling name

/-- What a name means after additions to a grammar. -/
def meaningAfter
    (start : Grammar) (added : List Rule) (name : Octets) : Option Rule :=
  (latest? added name).or (start.lookup? name)

section Additions

variable {grammar : Grammar} {rule : Rule} {rules : List Rule}
  {key name : Octets}

/-- After additions a key leads to the latest of its rules and, if none of them
is its own, to where it led before. -/
theorem find?_addAll :
    (grammar.addAll rules).find? key =
      (rules.reverse.find? fun rule => rule.key == key).or
        (grammar.find? key) := by
  induction rules generalizing grammar with
  | nil =>
      rfl
  | cons head tail inductionHypothesis =>
      have oneMore : grammar.addAll (head :: tail) =
          (grammar.add head).addAll tail :=
        rfl
      rw [oneMore, inductionHypothesis, find?_add, List.reverse_cons,
        List.find?_append, Option.or_assoc]
      by_cases same : head.key = key <;> simp [same]

theorem lookup?_addAll :
    (grammar.addAll rules).lookup? name = grammar.meaningAfter rules name :=
  find?_addAll

/-- The keys after additions are those from before and those of the added
rules. -/
theorem mem_keys_addAll_iff :
    key ∈ (grammar.addAll rules).keys ↔
      key ∈ grammar.keys ∨ key ∈ rules.map Rule.key := by
  have added : (rules.reverse.find? fun rule => rule.key == key).isSome =
      true ↔ key ∈ rules.map Rule.key := by
    simp [List.find?_isSome]
  rw [← isSome_find?_iff, find?_addAll, Option.isSome_or, Bool.or_eq_true,
    isSome_find?_iff, added]
  exact or_comm

theorem size_addAll :
    (grammar.addAll rules).size =
      (grammar.keys ++ rules.map Rule.key).toFinset.card := by
  have sameKeys : (grammar.addAll rules).keys.toFinset =
      (grammar.keys ++ rules.map Rule.key).toFinset := by
    ext key
    rw [List.mem_toFinset, List.mem_toFinset, List.mem_append]
    exact mem_keys_addAll_iff
  rw [← sameKeys, List.toFinset_card_of_nodup (nodup_keys _), keys,
    List.length_map, size]

theorem mem_of_find?_ofRules
    (found : (ofRules rules).find? key = some rule) :
    rule ∈ rules := by
  rw [ofRules, find?_addAll, find?_empty, Option.or_none] at found
  exact List.mem_reverse.mp (List.mem_of_find?_eq_some found)

/-- A grammar made of rules defines the names of these rules. -/
theorem defines_ofRules_iff :
    (ofRules rules).defines name = true ↔
      foldCase name ∈ rules.map Rule.key := by
  have filed : foldCase name ∈ (ofRules rules).keys ↔
      foldCase name ∈ empty.keys ∨ foldCase name ∈ rules.map Rule.key :=
    mem_keys_addAll_iff
  rw [defines, lookup?, isSome_find?_iff, filed]
  simp [empty, keys]

/-- Among rules with different keys the latest one of a name is the only
one. -/
theorem latest?_of_nodup (distinct : (rules.map Rule.key).Nodup) :
    latest? rules name =
      rules.find? fun rule => sameFolded rule.name.spelling name := by
  induction rules with
  | nil =>
      rfl
  | cons head tail inductionHypothesis =>
      obtain ⟨headOnce, tailDistinct⟩ := List.nodup_cons.mp distinct
      have tails := inductionHypothesis tailDistinct
      unfold latest? at tails ⊢
      rw [List.reverse_cons, List.find?_append, tails]
      by_cases same : sameFolded head.name.spelling name = true
      · have noOther : tail.find?
            (fun rule => sameFolded rule.name.spelling name) = none := by
          apply List.find?_eq_none.mpr
          intro other member alsoSame
          apply headOnce
          have keys : other.key = head.key := by
            simp only [sameFolded, beq_iff_eq] at same alsoSame
            exact alsoSame.trans same.symm
          rw [← keys]
          exact List.mem_map_of_mem member
        simp [noOther, same]
      · simp [same]

end Additions

/-- The grammar of the core rules has for each name the core rule of that
name. -/
theorem lookup?_core (name : Octets) :
    core.lookup? name = Core.rule? name := by
  have distinct : (Core.rules.map Rule.key).Nodup := by
    decide
  have started : core.lookup? name = meaningAfter empty Core.rules name :=
    lookup?_addAll
  have nothing : empty.lookup? name = none :=
    rfl
  rw [started, meaningAfter, nothing, Option.or_none,
    latest?_of_nodup distinct, Core.rule?]

/-! ## Registration -/

/-- The grammar is a register of what names mean: it has these meanings and no
other rules, in ascending order of the folded names. It does not matter in
which way it is asked. -/
structure Registers
    (grammar : Grammar) (meaning : Octets → Option Rule)
    (declared : List Octets) : Prop where
  lookup : ∀ name, grammar.lookup? name = meaning name
  fetch : ∀ name rule,
    grammar.fetch name = .ok rule ↔ meaning name = some rule
  fault : ∀ name cause, grammar.fetch name = .error cause ↔
    meaning name = none ∧ cause = .undefinedRule name
  defines : ∀ name, grammar.defines name = true ↔ meaning name ≠ none
  members : ∀ rule,
    rule ∈ grammar.rules ↔ meaning rule.name.spelling = some rule
  keys : grammar.keys =
    grammar.rules.map fun rule => foldCase rule.name.spelling
  ascending : (grammar.keys.map codes).Pairwise (· < ·)
  names : grammar.names = grammar.rules.map Rule.name
  size : grammar.size = declared.toFinset.card

/-- After any additions a grammar registers under each folded name the latest
rule, and two grammars that came about by additions are equal exactly if all
names mean the same in them. Without additions no name means anything in the
empty grammar, and in the grammar of the core rules it means the core rule. -/
theorem additions_registered (start : Grammar) (added : List Rule) :
    (start.addAll added).Registers (start.meaningAfter added)
      (start.keys ++ added.map Rule.key) ∧
    (∀ (start' : Grammar) (added' : List Rule),
      start.addAll added = start'.addAll added' ↔
        ∀ name,
          start.meaningAfter added name = start'.meaningAfter added' name) ∧
    (∀ name, empty.lookup? name = none) ∧
    ∀ name, core.lookup? name = Core.rule? name := by
  have registered : (start.addAll added).Registers (start.meaningAfter added)
      (start.keys ++ added.map Rule.key) := by
    constructor
    case lookup =>
      intro name
      exact lookup?_addAll
    case fetch =>
      intro name rule
      rw [fetch_eq_ok_iff, lookup?_addAll]
    case fault =>
      intro name cause
      rw [fetch_eq_error_iff, lookup?_addAll]
    case defines =>
      intro name
      rw [defines, lookup?_addAll, Option.isSome_iff_ne_none]
    case members =>
      intro rule
      rw [mem_rules_iff, lookup?_addAll]
    case keys => rfl
    case ascending =>
      apply List.pairwise_map.mpr
      apply List.pairwise_map.mpr
      apply (start.addAll added).ascending.imp
      intro low high below
      exact codes_lt_codes_iff.mpr below
    case names => rfl
    case size => exact size_addAll
  refine ⟨registered, ?_, fun _ => rfl, lookup?_core⟩
  intro start' added'
  constructor
  · intro same name
    rw [← lookup?_addAll, ← lookup?_addAll, same]
  · intro same
    apply eq_of_lookup?_eq
    intro name
    rw [lookup?_addAll, lookup?_addAll, same]

/-- The second spelling of the letter `z` takes the place of the first one. The
two octets above `0x7F` differ in case as well but are filed apart, behind the
letters. -/
example :
    let named (octet : UInt8) : Rule := ⟨⟨[octet], by simp⟩, .empty⟩
    (empty.addAll
      [named 0xE9, named 0xC9, named 0x7A, named 0x5A]).names.map
        RuleName.spelling = [[0x5A], [0xC9], [0xE9]] := by
  decide

end Grammar

end AbnfMatching
