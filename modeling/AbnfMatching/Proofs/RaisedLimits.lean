import AbnfMatching.Proofs.Copies
import AbnfMatching.Proofs.MatchesInStep

/-!
# Raised limits

The nesting limit decides how long a match may go on, but not what it finds on
the way. In exhaustive matching only fresh visits need a level to spare, so that
the limit interferes with what is filed and what is under way; still, two
matches that differ in nothing but the limit keep in step until the lower limit
is reached. Whatever is concluded under a limit is therefore concluded under
every higher one.
-/

namespace AbnfMatching

open Exhaustive (IsTooDeep)

/-- A match under a raised limit compared with one under the lower limit, which
is excused for reaching it. -/
def raisedLimit : Likeness :=
  .restricted (· = ·) (fun _ => True) (fun _ => True) IsTooDeep

/-- Raising the limit keeps an outcome, unless the limit was exceeded. If the
raised limit is exceeded, so is the lower one. -/
structure KeptAbove {ε α : Type}
    (exceeded : ε → Prop) (raised lower : Except ε α) : Prop where
  kept : EqualUnless exceeded raised lower
  exceeded : ∀ error, raised = .error error → exceeded error →
    ∃ other, lower = .error other ∧ exceeded other

theorem keptAbove_of_equalUnless
    {ε α : Type} {exceeded : ε → Prop} {raised lower : Except ε α}
    (kept : EqualUnless exceeded raised lower) :
    KeptAbove exceeded raised lower := by
  refine ⟨kept, ?_⟩
  intro error failed tooDeep
  by_contra none
  have within : ∀ other, lower = .error other → ¬ exceeded other :=
    fun other failedToo tooDeepToo => none ⟨other, failedToo, tooDeepToo⟩
  exact within error ((kept within).symm.trans failed) tooDeep

theorem raisedLimit_relates (setting : Setting) :
    raisedLimit.Relates setting setting := by
  refine Likeness.relates_restricted rfl biUnique_eq ?_ ?_ ?_
  · exact fun _ _ _ _ => trivial
  · intro name _
    exact agree_self (fun _ _ => ⟨rfl, rfl, trivial⟩)
      fun _ _ => ⟨rfl, trivial⟩
  · exact fun _ _ => trivial

namespace Conformance

variable {options : Options} {input : Octets} {limit limit' : Nat}

theorem raisedLimit_calls
    {grammar : Option Grammar} (raised : limit ≤ limit') :
    raisedLimit.Calls { options with limit := limit' }
      { options with limit := limit } grammar grammar input :=
  ⟨rfl, Or.inr ⟨raised, fun depth => ⟨depth, rfl⟩⟩,
    raisedLimit_relates _⟩

/-- Raising the limit keeps whatever an entry point concludes. Faults other than
that of exceeding the limit count as conclusions. -/
theorem raised_limit_keeps
    {grammar : Option Grammar} (raised : limit ≤ limit') :
    (∀ rule place,
      AnswersCompare (fun _ => KeptAbove IsTooDeep)
        (KeptAbove (Failure.IsFault IsTooDeep))
        { options with limit := limit' } { options with limit := limit }
        grammar grammar rule rule place place input) ∧
    (∀ present name,
      NamedAnswersCompare (fun _ => KeptAbove IsTooDeep)
        (KeptAbove (Failure.IsFault IsTooDeep))
        { options with limit := limit' } { options with limit := limit }
        present present name input) := by
  constructor
  · intro rule place
    refine answersCompare_of_calls (· = ·) (raisedLimit_calls raised)
      ⟨rfl, rfl⟩ ⟨rfl, trivial⟩ rfl ?_ ?_
    · intro α left right agree
      exact keptAbove_of_equalUnless (outcomes_equalUnless agree)
    · intro left right agree
      exact keptAbove_of_equalUnless (verdicts_equalUnless agree)
  · intro present name
    refine namedAnswersCompare_of_calls (· = ·) (raisedLimit_calls raised)
      ?_ ?_ ?_
    · exact agree_self (fun _ _ => ⟨rfl, ⟨rfl, trivial⟩, rfl⟩)
        fun _ _ => ⟨rfl, trivial⟩
    · intro α left right agree
      exact keptAbove_of_equalUnless (outcomes_equalUnless agree)
    · intro left right agree
      exact keptAbove_of_equalUnless (verdicts_equalUnless agree)

/-- Three levels are enough to conclude that the rule `xs = xs "x" / "x"`
matches no more than one octet of two. This is also what a match comes to that
has a thousand of them. With two levels it stops too early. -/
theorem raised_limit_keeps_growingLeft :
    (validateNamed { strategy := .exhaustive, limit := 2 }
      (.ofRules [growingLeft]) (octets "xs") (octets "xx")).outcome =
        .error (.fault (.tooDeep 2)) ∧
    (validateNamed { strategy := .exhaustive, limit := 3 }
      (.ofRules [growingLeft]) (octets "xs") (octets "xx")).outcome =
        .error (.rejected (.incomplete growingLeft.name 1 2)) ∧
    (validateNamed { strategy := .exhaustive, limit := 1000 }
      (.ofRules [growingLeft]) (octets "xs") (octets "xx")).outcome =
        .error (.rejected (.incomplete growingLeft.name 1 2)) := by
  have exceeded :
      (validateNamed { strategy := .exhaustive, limit := 2 }
        (.ofRules [growingLeft]) (octets "xs") (octets "xx")).outcome =
          .error (.fault (.tooDeep 2)) := by
    rfl
  have concluded :
      (validateNamed { strategy := .exhaustive, limit := 3 }
        (.ofRules [growingLeft]) (octets "xs") (octets "xx")).outcome =
          .error (.rejected (.incomplete growingLeft.name 1 2)) := by
    rfl
  have raised : 3 ≤ 1000 := by
    decide
  have answers :=
    (@raised_limit_keeps { strategy := .exhaustive } (octets "xx") 3 1000
      (some (.ofRules [growingLeft])) raised).2 (.ofRules [growingLeft])
      (octets "xs")
  refine ⟨exceeded, concluded, (answers.validated.kept ?_).trans concluded⟩
  intro failure failed
  rw [concluded] at failed
  cases failed
  exact id

end Conformance

end AbnfMatching
