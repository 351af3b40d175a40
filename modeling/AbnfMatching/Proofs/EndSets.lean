import AbnfMatching.Matching.Ends
import Mathlib.Data.List.Nodup
import Mathlib.Data.List.Sort

/-!
# End sets as sets

An end set is determined by its members. Bounds from both sides describe what is
known about an end set.
-/

namespace AbnfMatching.Ends

variable {left right : Ends}

theorem nodup_offsets (ends : Ends) :
    ends.offsets.Nodup :=
  ends.ascending.imp UInt64.ne_of_lt

/-- End sets with the same members are equal. -/
theorem eq_of_mem_iff
    (same : ∀ offset, offset ∈ left ↔ offset ∈ right) :
    left = right := by
  have permutation : left.offsets.Perm right.offsets :=
    (List.perm_ext_iff_of_nodup left.nodup_offsets right.nodup_offsets).mpr
      same
  have equal : left.offsets = right.offsets := by
    refine permutation.eq_of_pairwise ?_ left.ascending right.ascending
    intro low high _ _ below above
    exact absurd (UInt64.lt_trans below above) (UInt64.lt_irrefl low)
  exact eq_of_offsets_eq equal

theorem not_mem_of_isEmpty {offset : Offset} (empty : left.isEmpty = true) :
    offset ∉ left := by
  have nothing : left.offsets = [] := List.isEmpty_iff.mp empty
  simp [mem_def, nothing]

/-- An end set that has all members it has to have and no others than it may
have. -/
structure Between (lower upper : Offset → Prop) (ends : Ends) : Prop where
  complete : ∀ stop, lower stop → stop ∈ ends
  sound : ∀ stop ∈ ends, upper stop

theorem Between.mono
    {lower upper smaller larger : Offset → Prop} {ends : Ends}
    (between : ends.Between lower upper)
    (shrink : ∀ stop, smaller stop → lower stop)
    (enlarge : ∀ stop, upper stop → larger stop) :
    ends.Between smaller larger :=
  ⟨fun stop member => between.complete stop (shrink stop member),
    fun stop member => enlarge stop (between.sound stop member)⟩

end AbnfMatching.Ends
