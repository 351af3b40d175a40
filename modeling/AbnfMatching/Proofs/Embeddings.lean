import AbnfMatching.Proofs.Accompaniments
import AbnfMatching.Proofs.Confinement

/-!
# An input inside another one

An input may stand inside a longer one, with octets before it and after it. An
exhaustive match in the longer input goes through the motions of the match in
the shorter one, all offsets being displaced by the number of octets before it.
Octets after it may let an element end beyond the shorter input. These ends are
followed up as well, but from there no match leads back.

Two things are not done in step. A round of a repetition may reach new ends
beyond the shorter input only; further rounds then put questions again that have
been answered. And without an upper limit the number of rounds depends on the
length of the input; it is always large enough for a round that reaches nothing
new.
-/

namespace AbnfMatching

/-! ## Displaced offsets -/

/-- The offset in an input of an offset in the part of it after `lead`
octets. -/
def displace (lead : Nat) (offset : Offset) : Offset :=
  UInt64.ofNat lead + offset

section Displace

variable {lead : Nat} {start stop : Offset}

@[simp]
theorem displace_zero : displace 0 stop = stop := by
  simp [displace]

theorem toNat_displace (fits : lead + stop.toNat < UInt64.size) :
    (displace lead stop).toNat = lead + stop.toNat := by
  rw [displace, UInt64.toNat_add, UInt64.toNat_ofNat_of_lt' (by omega)]
  exact Nat.mod_eq_of_lt fits

theorem displace_injective : Function.Injective (displace lead) := by
  intro left right same
  simpa [displace] using same

/-- Distances are not displaced. -/
theorem displace_sub :
    displace lead stop - displace lead start = stop - start := by
  unfold displace
  grind

end Displace

/-- One input inside another one, after `lead` octets of it. Elements and rules
lie within some bounds, and no terminal within them tells the octets of the
shorter input from those of the longer one. -/
structure Embedding where
  inner : Setting
  outer : Setting
  lead : Nat
  within : Element → Prop
  grammar : inner.grammar = outer.grammar
  fits : lead + inner.input.size ≤ outer.input.size
  addressable : outer.Addressable
  parts : ∀ element part, within element → part ∈ element.children →
    within part
  meanings : ∀ name rule, within (.reference name) →
    ruleOf inner.grammar name = some rule → within rule.element
  terminals : ∀ value, within (.terminal value) →
    ∀ start stop : Offset, start ≤ stop →
    stop.toNat ≤ inner.input.size →
    value.accepts (outer.between (displace lead start) (displace lead stop)) =
      value.accepts (inner.between start stop)

namespace Embedding

/-- An offset of the longer input beyond the shorter one. -/
def Beyond (embedding : Embedding) (stop : Offset) : Prop :=
  embedding.lead + embedding.inner.input.size < stop.toNat ∧
    stop.toNat ≤ embedding.outer.input.size

/-- Nothing comes after the shorter input. -/
def AtEnd (embedding : Embedding) : Prop :=
  embedding.lead + embedding.inner.input.size = embedding.outer.input.size

/-- The ends of an element in the shorter input and in the longer one: they are
the same except for those beyond the shorter input. -/
structure Shows (embedding : Embedding) (ends shown : Ends) : Prop where
  inside : ∀ stop ∈ ends, stop.toNat ≤ embedding.inner.input.size
  kept : ∀ stop ∈ ends, displace embedding.lead stop ∈ shown
  covered : ∀ stop ∈ shown,
    (∃ origin ∈ ends, displace embedding.lead origin = stop) ∨
      embedding.Beyond stop

variable {embedding : Embedding}

section Offsets

variable {start stop : Offset}

theorem addressable_inner (embedding : Embedding) :
    embedding.inner.Addressable := by
  have bounded : embedding.outer.input.size < UInt64.size :=
    embedding.addressable
  have fits := embedding.fits
  unfold Setting.Addressable
  omega

theorem toNat_displaced (inside : stop.toNat ≤ embedding.inner.input.size) :
    (displace embedding.lead stop).toNat = embedding.lead + stop.toNat := by
  have bounded : embedding.outer.input.size < UInt64.size :=
    embedding.addressable
  have fits := embedding.fits
  exact toNat_displace (by omega)

theorem displaced_le_iff
    (startInside : start.toNat ≤ embedding.inner.input.size)
    (stopInside : stop.toNat ≤ embedding.inner.input.size) :
    displace embedding.lead start ≤ displace embedding.lead stop ↔
      start ≤ stop := by
  rw [UInt64.le_iff_toNat_le, UInt64.le_iff_toNat_le,
    toNat_displaced startInside, toNat_displaced stopInside]
  omega

/-- What comes after an offset of the shorter input lies in the shorter input
or beyond it. -/
theorem exists_origin
    (startInside : start.toNat ≤ embedding.inner.input.size)
    (ordered : displace embedding.lead start ≤ stop)
    (inside : stop.toNat ≤ embedding.outer.input.size) :
    (∃ origin, origin.toNat ≤ embedding.inner.input.size ∧
      displace embedding.lead origin = stop) ∨ embedding.Beyond stop := by
  rw [UInt64.le_iff_toNat_le, toNat_displaced startInside] at ordered
  by_cases beyond :
      embedding.lead + embedding.inner.input.size < stop.toNat
  · exact Or.inr ⟨beyond, inside⟩
  · left
    have located :
        (UInt64.ofNat (stop.toNat - embedding.lead)).toNat =
          stop.toNat - embedding.lead := by
      have := stop.toNat_lt
      exact UInt64.toNat_ofNat_of_lt' (by rw [UInt64.size]; omega)
    have originInside :
        (UInt64.ofNat (stop.toNat - embedding.lead)).toNat ≤
          embedding.inner.input.size := by
      omega
    refine ⟨_, originInside, ?_⟩
    apply UInt64.toNat.inj
    rw [toNat_displaced originInside, located]
    omega

theorem upward_beyond (embedding : Embedding) :
    embedding.outer.Upward embedding.Beyond := by
  constructor
  · intro offset beyond
    exact beyond.2
  · intro start stop beyond ordered inside
    have := UInt64.le_iff_toNat_le.mp ordered
    have := beyond.1
    exact ⟨by omega, inside⟩

theorem Beyond.not_displaced
    (beyond : embedding.Beyond stop)
    (inside : start.toNat ≤ embedding.inner.input.size) :
    displace embedding.lead start ≠ stop := by
  rintro rfl
  have := beyond.1
  rw [toNat_displaced inside] at this
  omega

theorem Beyond.not_atEnd (beyond : embedding.Beyond stop) :
    ¬ embedding.AtEnd := by
  obtain ⟨after, inside⟩ := beyond
  unfold AtEnd
  omega

end Offsets

/-! ## Ends that are shown -/

section Shows

variable {ends shown others othersShown : Ends} {offset : Offset}

theorem shows_none_iff :
    embedding.Shows .none shown ↔ shown.LieIn embedding.Beyond := by
  constructor
  · intro shows stop member
    rcases shows.covered stop member with ⟨origin, originMember, _⟩ | beyond
    · exact absurd originMember (Ends.not_mem_none origin)
    · exact beyond
  · intro lies
    refine ⟨?_, ?_, fun stop member => Or.inr (lies stop member)⟩
    · exact fun stop member => absurd member (Ends.not_mem_none stop)
    · exact fun stop member => absurd member (Ends.not_mem_none stop)

theorem shows_single (inside : offset.toNat ≤ embedding.inner.input.size) :
    embedding.Shows (.single offset)
      (.single (displace embedding.lead offset)) := by
  refine ⟨?_, ?_, ?_⟩
  · intro stop member
    rw [Ends.mem_single.mp member]
    exact inside
  · intro stop member
    rw [Ends.mem_single.mp member]
    exact Ends.mem_single.mpr rfl
  · intro stop member
    exact Or.inl ⟨offset, Ends.mem_single.mpr rfl,
      (Ends.mem_single.mp member).symm⟩

theorem Shows.union
    (first : embedding.Shows ends shown)
    (second : embedding.Shows others othersShown) :
    embedding.Shows (ends.union others) (shown.union othersShown) := by
  refine ⟨?_, ?_, ?_⟩
  · intro stop member
    rcases Ends.mem_union.mp member with inFirst | inSecond
    · exact first.inside stop inFirst
    · exact second.inside stop inSecond
  · intro stop member
    rw [Ends.mem_union]
    rcases Ends.mem_union.mp member with inFirst | inSecond
    · exact Or.inl (first.kept stop inFirst)
    · exact Or.inr (second.kept stop inSecond)
  · intro stop member
    rcases Ends.mem_union.mp member with inFirst | inSecond
    · refine (first.covered stop inFirst).imp_left ?_
      rintro ⟨origin, originMember, displaced⟩
      exact ⟨origin, Ends.mem_union.mpr (Or.inl originMember), displaced⟩
    · refine (second.covered stop inSecond).imp_left ?_
      rintro ⟨origin, originMember, displaced⟩
      exact ⟨origin, Ends.mem_union.mpr (Or.inr originMember), displaced⟩

theorem Shows.mem_iff
    (shows : embedding.Shows ends shown)
    (inside : offset.toNat ≤ embedding.inner.input.size) :
    displace embedding.lead offset ∈ shown ↔ offset ∈ ends := by
  constructor
  · intro member
    rcases shows.covered _ member with ⟨origin, originMember, same⟩ | beyond
    · exact displace_injective same ▸ originMember
    · exact absurd rfl (beyond.not_displaced inside)
  · exact shows.kept offset

/-- The ends in the longer input determine those in the shorter one. -/
theorem Shows.unique
    (first : embedding.Shows ends shown)
    (second : embedding.Shows others shown) :
    ends = others := by
  apply Ends.eq_of_mem_iff
  intro stop
  constructor
  · intro member
    have inside := first.inside stop member
    exact (second.mem_iff inside).mp (first.kept stop member)
  · intro member
    have inside := second.inside stop member
    exact (first.mem_iff inside).mp (second.kept stop member)

/-- In ascending order, the ends beyond the shorter input come after the
others. -/
theorem Shows.exists_later (shows : embedding.Shows ends shown) :
    ∃ later : List Offset,
      shown.offsets = ends.offsets.map (displace embedding.lead) ++ later ∧
      ∀ stop ∈ later, embedding.Beyond stop := by
  let isLate (stop : Offset) : Bool :=
    decide (embedding.lead + embedding.inner.input.size < stop.toNat)
  have ofLate : ∀ stop ∈ shown.offsets.filter isLate,
      stop ∈ shown ∧
        embedding.lead + embedding.inner.input.size < stop.toNat := by
    intro stop member
    obtain ⟨inShown, late⟩ := List.mem_filter.mp member
    exact ⟨inShown, of_decide_eq_true late⟩
  have early : (ends.offsets.map (displace embedding.lead)).Pairwise
      (· < ·) := by
    rw [List.pairwise_map]
    refine ends.ascending.imp_of_mem ?_
    intro left right leftMember rightMember below
    rw [UInt64.lt_iff_toNat_lt, toNat_displaced (shows.inside left leftMember),
      toNat_displaced (shows.inside right rightMember)]
    have := UInt64.lt_iff_toNat_lt.mp below
    omega
  have ascending : (ends.offsets.map (displace embedding.lead) ++
      shown.offsets.filter isLate).Pairwise (· < ·) := by
    refine List.pairwise_append.mpr
      ⟨early, shown.ascending.filter _, ?_⟩
    intro left leftMember right rightMember
    obtain ⟨origin, originMember, rfl⟩ := List.mem_map.mp leftMember
    have originInside := shows.inside origin originMember
    have late := (ofLate right rightMember).2
    rw [UInt64.lt_iff_toNat_lt, toNat_displaced originInside]
    omega
  have same : shown = ⟨_, ascending⟩ := by
    apply Ends.eq_of_mem_iff
    intro stop
    constructor
    · intro member
      refine List.mem_append.mpr ?_
      rcases shows.covered stop member with ⟨origin, originMember, rfl⟩ | beyond
      · exact Or.inl (List.mem_map_of_mem originMember)
      · exact Or.inr (List.mem_filter.mpr
          ⟨member, decide_eq_true beyond.1⟩)
    · intro member
      rcases List.mem_append.mp member with isEarly | isLate
      · obtain ⟨origin, originMember, rfl⟩ := List.mem_map.mp isEarly
        exact shows.kept origin originMember
      · exact (ofLate stop isLate).1
  refine ⟨_, congrArg Ends.offsets same, ?_⟩
  intro stop member
  obtain ⟨inShown, late⟩ := ofLate stop member
  rcases shows.covered stop inShown with ⟨origin, originMember, rfl⟩ | beyond
  · rw [toNat_displaced (shows.inside origin originMember)] at late
    have := shows.inside origin originMember
    omega
  · exact beyond

end Shows

/-! ## Terminals and references -/

section Elements

variable {start stop : Offset}

theorem spans_displaced_iff
    {value : Terminal} (within : embedding.within (.terminal value))
    (startInside : start.toNat ≤ embedding.inner.input.size)
    (stopInside : stop.toNat ≤ embedding.inner.input.size) :
    Spans embedding.outer (.terminal value) (displace embedding.lead start)
        (displace embedding.lead stop) ↔
      Spans embedding.inner (.terminal value) start stop := by
  have fits := embedding.fits
  constructor
  · intro spans
    have ordered := (displaced_le_iff startInside stopInside).mp spans.ordered
    refine ⟨ordered, stopInside, ?_⟩
    rw [derives_terminal_iff,
      ← embedding.terminals value within start stop ordered stopInside]
    exact derives_terminal_iff.mp spans.derives
  · intro spans
    refine ⟨(displaced_le_iff startInside stopInside).mpr spans.ordered, ?_, ?_⟩
    · rw [toNat_displaced stopInside]
      omega
    · rw [derives_terminal_iff,
        embedding.terminals value within start stop spans.ordered stopInside]
      exact derives_terminal_iff.mp spans.derives

/-- A terminal ends at displaced offsets unless it ends beyond the shorter
input. -/
theorem terminalEnd_displaced
    {value : Terminal} (within : embedding.within (.terminal value))
    (inside : start.toNat ≤ embedding.inner.input.size) :
    ∃ found found',
      embedding.inner.terminalEnd value start = .ok found ∧
      embedding.outer.terminalEnd value (displace embedding.lead start) =
        .ok found' ∧
      ((found' = found.map (displace embedding.lead) ∧
          ∀ stop ∈ found, stop.toNat ≤ embedding.inner.input.size) ∨
        found = none ∧ ∃ stop, found' = some stop ∧ embedding.Beyond stop) := by
  have fits := embedding.fits
  have outerInside : (displace embedding.lead start).toNat ≤
      embedding.outer.input.size := by
    rw [toNat_displaced inside]
    omega
  have keptEnd : ∀ stop,
      embedding.inner.terminalEnd value start = .ok (some stop) →
      stop.toNat ≤ embedding.inner.input.size ∧
        embedding.outer.terminalEnd value (displace embedding.lead start) =
          .ok (some (displace embedding.lead stop)) := by
    intro stop found
    have spans :=
      (terminalEnd_eq_some_iff embedding.addressable_inner inside).mp found
    exact ⟨spans.inside, (terminalEnd_eq_some_iff embedding.addressable
      outerInside).mpr ((spans_displaced_iff within inside spans.inside).mpr
        spans)⟩
  rcases innerFound : embedding.inner.terminalEnd value start with
    cause | found
  · exact absurd innerFound (Setting.terminalEnd_ne_error inside)
  rcases outerFound : embedding.outer.terminalEnd value
    (displace embedding.lead start) with cause | found'
  · exact absurd outerFound (Setting.terminalEnd_ne_error outerInside)
  refine ⟨found, found', rfl, rfl, ?_⟩
  cases found with
  | some stop =>
      obtain ⟨stopInside, displaced⟩ := keptEnd stop innerFound
      rw [displaced] at outerFound
      cases outerFound
      refine Or.inl ⟨rfl, ?_⟩
      rintro _ ⟨⟩
      exact stopInside
  | none =>
      cases found' with
      | none => exact Or.inl ⟨rfl, fun stop isStop => nomatch isStop⟩
      | some stop =>
          have spans := (terminalEnd_eq_some_iff embedding.addressable
            outerInside).mp outerFound
          rcases exists_origin inside spans.ordered spans.inside with
            ⟨origin, originInside, rfl⟩ | beyond
          · have innerSpans :=
              (spans_displaced_iff within inside originInside).mp spans
            rw [(terminalEnd_eq_some_iff embedding.addressable_inner
              inside).mpr innerSpans] at innerFound
            cases innerFound
          · exact Or.inr ⟨rfl, stop, rfl, beyond⟩

theorem resolve_outer (embedding : Embedding) (name : RuleName) :
    embedding.outer.resolve name = embedding.inner.resolve name := by
  unfold Setting.resolve
  rw [embedding.grammar]

end Elements

end Embedding

end AbnfMatching
