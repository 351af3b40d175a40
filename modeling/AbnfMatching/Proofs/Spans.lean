import AbnfMatching.Language.Basic
import AbnfMatching.Matching.Setting

/-!
# Spans of an input

A span of an element is a part of the input, given by the offsets of its two
ends, that belongs to the language of the element. Offsets are 64-bit words, so
the input is taken to be short enough for every offset in it to be one.
-/

namespace AbnfMatching

namespace Setting

/-- Every offset in the input, its end included, is a 64-bit word. -/
def Addressable (setting : Setting) : Prop :=
  setting.input.size < UInt64.size

/-- The octets between two offsets. -/
def between (setting : Setting) (start stop : Offset) : Octets :=
  (setting.input.toList.drop start.toNat).take (stop.toNat - start.toNat)

variable {setting : Setting} {start middle stop : Offset}

@[simp]
theorem between_self :
    setting.between start start = [] := by
  simp [between]

theorem length_between (inside : stop.toNat ≤ setting.input.size) :
    (setting.between start stop).length = stop.toNat - start.toNat := by
  rw [between, List.length_take, List.length_drop, Array.length_toList]
  omega

theorem eq_of_between_eq_nil
    (ordered : start ≤ stop) (inside : stop.toNat ≤ setting.input.size)
    (nothing : setting.between start stop = []) :
    stop = start := by
  have startLe := UInt64.le_iff_toNat_le.mp ordered
  have lengths := congrArg List.length nothing
  rw [length_between inside, List.length_nil] at lengths
  apply UInt64.toNat.inj
  omega

theorem between_append (first : start ≤ middle) (second : middle ≤ stop) :
    setting.between start middle ++ setting.between middle stop =
      setting.between start stop := by
  have firstLe := UInt64.le_iff_toNat_le.mp first
  have secondLe := UInt64.le_iff_toNat_le.mp second
  have reach :
      stop.toNat - start.toNat =
        (middle.toNat - start.toNat) + (stop.toNat - middle.toNat) := by
    omega
  have resume :
      start.toNat + (middle.toNat - start.toNat) = middle.toNat := by
    omega
  simp only [between]
  rw [reach, List.take_add, List.drop_drop, resume]

/-- Whatever the octets between two offsets are made of meets at an offset
between them. -/
theorem exists_middle
    {first rest : Octets}
    (ordered : start ≤ stop) (inside : stop.toNat ≤ setting.input.size)
    (made : setting.between start stop = first ++ rest) :
    ∃ middle, start ≤ middle ∧ middle ≤ stop ∧
      setting.between start middle = first ∧
      setting.between middle stop = rest := by
  have startLe := UInt64.le_iff_toNat_le.mp ordered
  have lengths := congrArg List.length made
  rw [length_between inside, List.length_append] at lengths
  have stopFits := stop.toNat_lt
  have located :
      (UInt64.ofNat (start.toNat + first.length)).toNat =
        start.toNat + first.length := by
    apply UInt64.toNat_ofNat_of_lt'
    rw [UInt64.size]
    omega
  have afterStart : start ≤ UInt64.ofNat (start.toNat + first.length) := by
    rw [UInt64.le_iff_toNat_le, located]
    omega
  have beforeStop : UInt64.ofNat (start.toNat + first.length) ≤ stop := by
    rw [UInt64.le_iff_toNat_le, located]
    omega
  have joined :
      setting.between start (UInt64.ofNat (start.toNat + first.length)) ++
          setting.between (UInt64.ofNat (start.toNat + first.length)) stop =
        first ++ rest := by
    rw [between_append afterStart beforeStop, made]
  have sameLength :
      (setting.between start
        (UInt64.ofNat (start.toNat + first.length))).length =
        first.length := by
    rw [length_between (by rw [located]; omega), located]
    omega
  obtain ⟨firstEqual, restEqual⟩ := List.append_inj joined sameLength
  exact ⟨_, afterStart, beforeStop, firstEqual, restEqual⟩

theorem toList_slice (setting : Setting) (length : Nat) :
    setting.slice start length =
      (setting.input.toList.drop start.toNat).take length := by
  rw [slice, Array.toList_extract, List.extract_eq_take_drop]
  simp

end Setting

/-- The part of the input from `start` to `stop` belongs to the language of the
element. -/
structure Spans
    (setting : Setting) (element : Element) (start stop : Offset) :
    Prop where
  ordered : start ≤ stop
  inside : stop.toNat ≤ setting.input.size
  derives : Derives setting.grammar element (setting.between start stop)

section Spans

variable {setting : Setting} {start stop : Offset}

theorem spans_self_iff
    {element : Element} (inside : start.toNat ≤ setting.input.size) :
    Spans setting element start start ↔
      Derives setting.grammar element [] := by
  constructor
  · intro spans
    simpa using spans.derives
  · intro derivation
    exact ⟨UInt64.le_refl start, inside, by simpa using derivation⟩

theorem spans_sequence_nil_iff (inside : start.toNat ≤ setting.input.size) :
    Spans setting (.sequence []) start stop ↔ stop = start := by
  constructor
  · intro spans
    exact Setting.eq_of_between_eq_nil spans.ordered spans.inside
      (derives_sequence_nil_iff.mp spans.derives)
  · rintro rfl
    exact (spans_self_iff inside).mpr .nothing

theorem spans_sequence_cons_iff
    {head : Element} {tail : List Element} :
    Spans setting (.sequence (head :: tail)) start stop ↔
      ∃ middle, Spans setting head start middle ∧
        Spans setting (.sequence tail) middle stop := by
  constructor
  · intro spans
    obtain ⟨first, rest, made, headDerives, tailDerives⟩ :=
      derives_sequence_cons_iff.mp spans.derives
    obtain ⟨middle, firstLe, restLe, rfl, rfl⟩ :=
      Setting.exists_middle spans.ordered spans.inside made
    have middleInside : middle.toNat ≤ setting.input.size :=
      Nat.le_trans (UInt64.le_iff_toNat_le.mp restLe) spans.inside
    exact ⟨middle, ⟨firstLe, middleInside, headDerives⟩,
      ⟨restLe, spans.inside, tailDerives⟩⟩
  · rintro ⟨middle, headSpans, tailSpans⟩
    refine ⟨UInt64.le_trans headSpans.ordered tailSpans.ordered,
      tailSpans.inside, ?_⟩
    rw [← Setting.between_append headSpans.ordered tailSpans.ordered]
    exact .inTurn headSpans.derives tailSpans.derives

theorem spans_alternation_iff {branches : List Element} :
    Spans setting (.alternation branches) start stop ↔
      ∃ branch ∈ branches, Spans setting branch start stop := by
  constructor
  · intro spans
    obtain ⟨branch, member, derives⟩ :=
      derives_alternation_iff.mp spans.derives
    exact ⟨branch, member, spans.ordered, spans.inside, derives⟩
  · rintro ⟨branch, member, spans⟩
    exact ⟨spans.ordered, spans.inside, .oneOf member spans.derives⟩

theorem toNat_add_ofNat
    {length : Nat} (fits : start.toNat + length < UInt64.size) :
    (start + UInt64.ofNat length).toNat = start.toNat + length := by
  have lengthFits : length < UInt64.size := by omega
  rw [UInt64.toNat_add, UInt64.toNat_ofNat_of_lt' lengthFits]
  exact Nat.mod_eq_of_lt fits

/-- A terminal is found to end exactly where one of its spans ends. A literal
longer than the rest of the input accepts no part of it, so that the end it
would have cannot wrap around. -/
theorem terminalEnd_eq_some_iff
    {terminal : Terminal} (fits : setting.Addressable)
    (inside : start.toNat ≤ setting.input.size) :
    setting.terminalEnd terminal start = .ok (some stop) ↔
      Spans setting (.terminal terminal) start stop := by
  have bounded : setting.input.size < UInt64.size := fits
  constructor
  · intro found
    have accepted :
        terminal.accepts (setting.slice start terminal.length) = true ∧
          start + UInt64.ofNat terminal.length = stop := by
      unfold Setting.terminalEnd at found
      grind
    obtain ⟨accepted, rfl⟩ := accepted
    have lengths := Terminal.length_of_accepts accepted
    rw [Setting.toList_slice, List.length_take, List.length_drop,
      Array.length_toList] at lengths
    have stopEq :
        (start + UInt64.ofNat terminal.length).toNat =
          start.toNat + terminal.length :=
      toNat_add_ofNat (by omega)
    refine ⟨?_, ?_, ?_⟩
    · rw [UInt64.le_iff_toNat_le, stopEq]
      omega
    · rw [stopEq]
      omega
    · rw [derives_terminal_iff, Setting.between, stopEq,
        Nat.add_sub_cancel_left, ← Setting.toList_slice]
      exact accepted
  · intro spans
    have startLe := UInt64.le_iff_toNat_le.mp spans.ordered
    have stopInside := spans.inside
    have accepted := derives_terminal_iff.mp spans.derives
    have lengths := Terminal.length_of_accepts accepted
    rw [Setting.length_between spans.inside] at lengths
    have stopEq : start + UInt64.ofNat terminal.length = stop := by
      apply UInt64.toNat.inj
      rw [toNat_add_ofNat (by omega)]
      omega
    have slices :
        setting.slice start terminal.length =
          setting.between start stop := by
      rw [Setting.toList_slice, Setting.between, lengths]
    unfold Setting.terminalEnd
    rw [stopEq, slices, if_neg (by omega), if_neg (by omega), if_pos accepted]

end Spans

end AbnfMatching
