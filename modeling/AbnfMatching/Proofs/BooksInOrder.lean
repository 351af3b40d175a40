import AbnfMatching.Proofs.Bookkeeping
import AbnfMatching.Proofs.Nodes

/-!
# Books in order

The desk of a match is in order whenever a visit is attended to and whenever it
has been answered. Table, visits under way and depth are updated at different
moments of an evaluation that makes other visits meanwhile, but what has been
entered at its beginning is still there at its end, and nothing else is.

Therefore no evaluation begins twice, and the trace of a match has no more
entries than there are visits in reach.
-/

namespace AbnfMatching

/-- Whatever is filed in the one table is filed in the other one as well. -/
def Table.KeptIn (earlier later : Table) : Prop :=
  ∀ visit ends, earlier.find? visit = some ends →
    later.find? visit = some ends

section Table

variable {first second third table : Table}

theorem Table.keptIn_refl : table.KeptIn table :=
  fun _ _ filed => filed

theorem Table.KeptIn.trans
    (kept : first.KeptIn second) (keptToo : second.KeptIn third) :
    first.KeptIn third :=
  fun visit ends filed => keptToo visit ends (kept visit ends filed)

theorem Table.keptIn_insert
    {visit : Visit} {found : Ends} (unfiled : table.find? visit = none) :
    table.KeptIn (table.insert visit found) := by
  intro other ends filed
  rw [Table.find?_insert]
  by_cases same : visit = other
  · rw [same, filed] at unfiled
    cases unfiled
  · rw [if_neg same]
    exact filed

end Table

namespace Exhaustive

/-- No visit under way is filed, and the depth is the number of visits under
way. -/
structure Desk.Orderly (desk : Desk) : Prop where
  apart : ∀ visit ∈ desk.underWay, desk.table.find? visit = none
  counted : desk.depth = desk.underWay.card

/-- The desk is in order at every arrival and every departure. Results that are
filed stay as they are, and no evaluation begins twice. -/
structure Book.InOrder (book : Book) : Prop where
  arrivals : ∀ visit desk, .arrival visit desk ∈ book.events → desk.Orderly
  departures : ∀ visit before after,
    .departure visit before after ∈ book.events →
    .arrival visit before ∈ book.events ∧ after.Orderly ∧
      Restores visit before after
  lasting : book.events.Pairwise fun later earlier =>
    earlier.desk.table.KeptIn later.desk.table
  once : book.begun.Nodup

/-- What holds of a book all the time if evaluations begin only for certain
occurrences in some region: it is in order, and so is the desk; each evaluation
that has begun is under way or filed; and an entry is made for those that are
filed at most. -/
structure Book.Sound
    (within : Occurrence → Prop) (region : Offset → Prop) (book : Book) :
    Prop extends book.InOrder where
  orderly : book.desk.Orderly
  latest : ∀ event ∈ book.events, event.desk.table.KeptIn book.desk.table
  dealtWith : ∀ visit ∈ book.begun,
    visit ∈ book.desk.underWay ∨ (book.desk.table.find? visit).isSome
  traced : book.desk.trace.size + book.desk.underWay.card ≤
    book.begun.length
  inReach : ∀ visit ∈ book.begun, ∃ occurrence offset,
    visit = occurrence.visitAt offset ∧ within occurrence ∧ region offset
  confined : ∀ visit ends, region visit.offset →
    book.desk.table.find? visit = some ends → ends.LieIn region

section Sound

variable {within : Occurrence → Prop} {region : Offset → Prop} {book : Book}
  {visit : Visit}

namespace Book.Sound

/-- An event is recorded with what is on the desk. -/
theorem record
    {event : Event} (sound : book.Sound within region)
    (present : event.desk = book.desk)
    (departs : ∀ visit before after, event = .departure visit before after →
      .arrival visit before ∈ book.events ∧ Restores visit before after) :
    Book.Sound within region { book with events := event :: book.events } where
  arrivals := by
    intro visit desk member
    rcases List.mem_cons.mp member with isLatest | isEarlier
    · have onDesk : desk = book.desk := by
        rw [← present, ← isLatest]
        rfl
      rw [onDesk]
      exact sound.orderly
    · exact sound.arrivals visit desk isEarlier
  departures := by
    intro visit before after member
    rcases List.mem_cons.mp member with isLatest | isEarlier
    · have onDesk : after = book.desk := by
        rw [← present, ← isLatest]
        rfl
      obtain ⟨arrived, restores⟩ := departs visit before after isLatest.symm
      exact ⟨List.mem_cons_of_mem _ arrived, onDesk ▸ sound.orderly, restores⟩
    · obtain ⟨arrived, orderly, restores⟩ :=
        sound.departures visit before after isEarlier
      exact ⟨List.mem_cons_of_mem _ arrived, orderly, restores⟩
  lasting := by
    apply List.pairwise_cons.mpr
    refine ⟨?_, sound.lasting⟩
    intro earlier member
    rw [present]
    exact sound.latest earlier member
  once := sound.once
  orderly := sound.orderly
  latest := by
    intro other member
    rcases List.mem_cons.mp member with isLatest | isEarlier
    · rw [isLatest, present]
      exact Table.keptIn_refl
    · exact sound.latest other isEarlier
  dealtWith := sound.dealtWith
  traced := sound.traced
  inReach := sound.inReach
  confined := sound.confined

theorem arrive (sound : book.Sound within region) :
    (book.arrive visit).Sound within region :=
  sound.record rfl fun _ _ _ departure => nomatch departure

theorem depart
    {before : Desk} (sound : book.Sound within region)
    (arrived : .arrival visit before ∈ book.events)
    (restores : Restores visit before book.desk) :
    (book.depart visit before).Sound within region := by
  apply sound.record rfl
  intro other before' after departure
  cases departure
  exact ⟨arrived, restores⟩

theorem start
    {occurrence : Occurrence} {offset : Offset}
    (sound : book.Sound within region)
    (unfiled : book.desk.table.find? (occurrence.visitAt offset) = none)
    (notUnderWay : occurrence.visitAt offset ∉ book.desk.underWay)
    (isWithin : within occurrence) (inRegion : region offset) :
    (book.start (occurrence.visitAt offset)).Sound within region where
  arrivals := sound.arrivals
  departures := sound.departures
  lasting := sound.lasting
  once := by
    apply List.nodup_cons.mpr
    refine ⟨?_, sound.once⟩
    intro member
    rcases sound.dealtWith _ member with underWay | filed
    · exact notUnderWay underWay
    · rw [unfiled] at filed
      cases filed
  orderly := by
    constructor
    · intro other member
      rcases Finset.mem_insert.mp member with rfl | underWay
      · exact unfiled
      · exact sound.orderly.apart other underWay
    · change book.desk.depth + 1 = (insert _ book.desk.underWay).card
      rw [Finset.card_insert_of_notMem notUnderWay, sound.orderly.counted]
  latest := sound.latest
  dealtWith := by
    intro other member
    rcases List.mem_cons.mp member with rfl | isEarlier
    · exact Or.inl (Finset.mem_insert_self _ _)
    · exact (sound.dealtWith other isEarlier).imp_left
        (Finset.mem_insert_of_mem ·)
  traced := by
    have traced := sound.traced
    change book.desk.trace.size + (insert _ book.desk.underWay).card ≤
      book.begun.length + 1
    rw [Finset.card_insert_of_notMem notUnderWay]
    omega
  inReach := by
    intro other member
    rcases List.mem_cons.mp member with rfl | isEarlier
    · exact ⟨occurrence, offset, rfl, isWithin, inRegion⟩
    · exact sound.inReach other isEarlier
  confined := sound.confined

theorem complete
    {setting : Setting} {occurrence : Occurrence} {offset : Offset}
    {found : Ends}
    (sound : book.Sound within region)
    (underWay : occurrence.visitAt offset ∈ book.desk.underWay)
    (lies : found.LieIn region) :
    (book.complete setting occurrence offset found).Sound within region where
  arrivals := sound.arrivals
  departures := sound.departures
  lasting := sound.lasting
  once := sound.once
  orderly := by
    constructor
    · intro other member
      obtain ⟨different, underWayToo⟩ := Finset.mem_erase.mp member
      change (book.desk.table.insert _ _).find? other = none
      rw [Table.find?_insert, if_neg (Ne.symm different)]
      exact sound.orderly.apart other underWayToo
    · change book.desk.depth - 1 = (book.desk.underWay.erase _).card
      rw [Finset.card_erase_of_mem underWay, sound.orderly.counted]
  latest := by
    intro event member
    apply (sound.latest event member).trans
    exact Table.keptIn_insert (sound.orderly.apart _ underWay)
  dealtWith := by
    intro other member
    change other ∈ book.desk.underWay.erase _ ∨
      ((book.desk.table.insert _ _).find? other).isSome
    rw [Table.find?_insert]
    by_cases same : occurrence.visitAt offset = other
    · simp [same]
    · rw [if_neg same, Finset.mem_erase]
      exact (sound.dealtWith other member).imp_left
        fun underWayToo => ⟨Ne.symm same, underWayToo⟩
  traced := by
    have traced := sound.traced
    have positive : 0 < book.desk.underWay.card :=
      Finset.card_pos.mpr ⟨_, underWay⟩
    change (if setting.verbose then book.desk.trace.push _
      else book.desk.trace).size + (book.desk.underWay.erase _).card ≤
      book.begun.length
    rw [Finset.card_erase_of_mem underWay]
    by_cases verbose : setting.verbose = true
    · rw [if_pos verbose, Array.size_push]
      omega
    · rw [if_neg verbose]
      omega
  inReach := sound.inReach
  confined := by
    intro other ends inRegion filed
    change (book.desk.table.insert _ _).find? other = some ends at filed
    rw [Table.find?_insert] at filed
    by_cases same : occurrence.visitAt offset = other
    · rw [if_pos same] at filed
      cases filed
      exact lies
    · rw [if_neg same] at filed
      exact sound.confined other ends inRegion filed

end Book.Sound

theorem Book.sound_empty : Book.empty.Sound within region where
  arrivals := fun _ _ member => nomatch member
  departures := fun _ _ _ member => nomatch member
  lasting := .nil
  once := .nil
  orderly := ⟨fun _ member => absurd member (Finset.notMem_empty _), rfl⟩
  latest := fun _ member => nomatch member
  dealtWith := fun _ member => nomatch member
  traced := Nat.le_refl 0
  inReach := fun _ member => nomatch member
  confined := by
    intro visit ends _ filed
    change Table.empty.find? visit = some ends at filed
    rw [Table.find?_empty] at filed
    cases filed

/-- A visit that is answered at once leaves the book sound. -/
theorem Book.Sound.passed
    (sound : book.Sound within region)
    (answered : (book.desk.table.find? visit).isSome ∨
      visit ∈ book.desk.underWay) :
    ((book.arrive visit).depart visit book.desk).Sound within region := by
  have arrived : (book.arrive visit).Sound within region := sound.arrive
  exact arrived.depart List.mem_cons_self ⟨rfl, rfl, answered⟩

/-- So does an evaluation that is complete. -/
theorem Book.Sound.evaluated
    {later : Book} {setting : Setting} {occurrence : Occurrence}
    {offset : Offset} {found : Ends}
    (sound : later.Sound within region)
    (notUnderWay : occurrence.visitAt offset ∉ book.desk.underWay)
    (resumes :
      ((book.arrive (occurrence.visitAt offset)).start
        (occurrence.visitAt offset)).Resumes later)
    (lies : found.LieIn region) :
    ((later.complete setting occurrence offset found).depart
      (occurrence.visitAt offset) book.desk).Sound within region := by
  have underWay : occurrence.visitAt offset ∈ later.desk.underWay := by
    rw [resumes.underWay]
    exact Finset.mem_insert_self _ _
  have completed :
      (later.complete setting occurrence offset found).Sound within region :=
    sound.complete underWay lies
  exact completed.depart (resumes.events List.mem_cons_self)
    (restores_of_resumes notUnderWay resumes)

/-- A visit keeps the book sound, whether it is answered or stopped by a
fault. -/
theorem attend_sound
    {setting : Setting} {limit visits : Nat} {occurrence : Occurrence}
    {offset : Offset}
    (closed : ∀ occurrence part, within occurrence →
      Below setting.grammar occurrence part → within part)
    (retained : setting.Retains region)
    (isWithin : within occurrence) (inRegion : region offset)
    (sound : book.Sound within region) :
    Delivers (attend setting limit visits occurrence offset) book
      (fun ends later => ends.LieIn region ∧ later.Sound within region)
      (fun later => later.Sound within region) := by
  induction visits generalizing occurrence offset book with
  | zero =>
      exact delivers_throw sound
  | succ visits inductionHypothesis =>
      have arrived :
          (book.arrive (occurrence.visitAt offset)).Sound within region :=
        sound.arrive
      apply delivers_attend
      · intro ends filed
        refine ⟨sound.confined _ ends inRegion filed, sound.passed ?_⟩
        rw [filed]
        exact Or.inl rfl
      · intro underWay
        exact ⟨Ends.lieIn_none, sound.passed (Or.inr underWay)⟩
      · exact arrived
      · intro unfiled notUnderWay
        have started :=
          arrived.start unfiled notUnderWay isWithin inRegion
        have inquired := Inquiry.carryOut_delivers
          (fun later => later.Sound within region)
          (fun later => later.Sound within region)
          (@meets_inquiry_lieIn _ setting occurrence offset retained inRegion)
          (fun question asked state stateSound =>
            @inductionHypothesis state question.1 question.2
              (closed _ _ isWithin asked.1) asked.2 stateSound)
          (fun _ => id) started
        apply (inquired.and (carryOut_resumes fun question =>
          attend_resumes setting limit visits question.1 question.2)).mono
        · intro found later both
          obtain ⟨⟨lies, laterSound⟩, resumes⟩ := both
          exact ⟨lies, laterSound.evaluated notUnderWay resumes lies⟩
        · exact fun _ both => both.1

end Sound

/-! ## Whole matches -/

section Runs

variable {setting : Setting} {limit : Nat} {occurrence : Occurrence}
  {offset : Offset}

theorem sound_keepBook
    {within : Occurrence → Prop} {region : Offset → Prop}
    (closed : ∀ occurrence part, within occurrence →
      Below setting.grammar occurrence part → within part)
    (retained : setting.Retains region)
    (isWithin : within occurrence) (inRegion : region offset) :
    (keepBook setting limit occurrence offset).2.Sound within region := by
  have delivers :
      Delivers (attend setting limit (limit + 1) occurrence offset) .empty
        (fun ends later => ends.LieIn region ∧ later.Sound within region)
        (fun later => later.Sound within region) :=
    attend_sound closed retained isWithin inRegion Book.sound_empty
  unfold Delivers at delivers
  unfold keepBook
  generalize perform
    (attend setting limit (limit + 1) occurrence offset) .empty =
    performed at delivers ⊢
  obtain ⟨cause | ends, later⟩ := performed
  · exact delivers
  · exact delivers.2

/-- No more entries are made than there are visits in reach. -/
theorem size_trace_keepBook_le
    {place : Place} {element : Element}
    (holds : place.Holds setting.grammar element)
    (fits : setting.Addressable)
    (inside : offset.toNat ≤ setting.input.size) :
    (keepBook setting limit (place.occurrence element)
      offset).2.desk.trace.size ≤
      visitCount setting.grammar place element setting.input.size offset := by
  have sound :
      (keepBook setting limit (place.occurrence element) offset).2.Sound
      (Occurrence.InReach setting.grammar place element)
      (fun stop => offset ≤ stop ∧ stop.toNat ≤ setting.input.size) :=
    sound_keepBook (fun _ _ inReach below => inReach.below below)
      ((setting.upward_from offset).retains fits)
      (Occurrence.inReach_start holds) ⟨UInt64.le_refl offset, inside⟩
  have few := length_le_of_nodup sound.once fun visit member => by
    obtain ⟨occurrence, start, rfl, inReach, ordered, startInside⟩ :=
      sound.inReach visit member
    exact inReach.visit_mem ordered startInside
  have traced := sound.traced
  omega

end Runs

end Exhaustive

namespace Conformance

open Exhaustive (Book keepBook)

/-- A match can be made with a book, which changes nothing about its outcome and
its trace, and the book is in order. Whenever a visit is attended to and
whenever it has been answered, no visit under way is filed, and the depth is the
number of visits under way; after the answer both are what they were before.
Nothing that has been filed changes, and no evaluation begins twice. From an
offset of the input, the trace has no more entries than there are visits in
reach. -/
theorem matches_keep_order
    {options : Options} {grammar : Option Grammar} {element : Element}
    {input : Octets} {offset : Offset} {place : Place} :
    ∃ book : Book,
      keepBook (setting options grammar input) options.limit
          (place.occurrence element) offset =
        ((allEnds options grammar element input offset place).outcome, book) ∧
      book.desk.trace =
        (allEnds options grammar element input offset place).trace ∧
      book.InOrder ∧
      (place.Holds grammar element →
        input.length < UInt64.size → offset.toNat ≤ input.length →
        (allEnds options grammar element input offset place).trace.size ≤
          visitCount grammar place element input.length offset) := by
  have same := @Exhaustive.run_eq_keepBook (setting options grammar input)
    options.limit (place.occurrence element) offset
  have outcome :
      (allEnds options grammar element input offset place).outcome =
        (keepBook (setting options grammar input) options.limit
          (place.occurrence element) offset).1 :=
    congrArg Prod.fst same
  have trace :
      (allEnds options grammar element input offset place).trace =
        (keepBook (setting options grammar input) options.limit
          (place.occurrence element) offset).2.desk.trace :=
    congrArg (fun result => result.2.trace) same
  have sound :
      (keepBook (setting options grammar input) options.limit
        (place.occurrence element) offset).2.Sound (fun _ => True)
        fun _ => True :=
    Exhaustive.sound_keepBook (fun _ _ _ _ => trivial)
      (fun _ _ _ _ _ => trivial) trivial trivial
  refine ⟨_, ?_, trace.symm, sound.toInOrder, ?_⟩
  · rw [outcome]
  · intro holds fits inside
    rw [trace]
    have bounded := @Exhaustive.size_trace_keepBook_le
      (setting options grammar input) options.limit offset place element holds
      (addressable_setting options grammar fits)
      (inside_setting options grammar inside)
    rw [size_setting] at bounded
    exact bounded

/-- At the beginning of `"xx"`, all nodes of the rule `xs = xs "x" / "x"` are
visited but the first letter. -/
theorem matches_keep_order_growingLeft :
    (allEnds { verbose := true } (some (.ofRules [growingLeft]))
      growingLeft.element (octets "xx") 0
      (.rule growingLeft.key)).trace.size = 4 ∧
    4 ≤ visitCount (some (.ofRules [growingLeft])) (.rule growingLeft.key)
      growingLeft.element 2 0 := by
  have traced :
      (allEnds { verbose := true } (some (.ofRules [growingLeft]))
        growingLeft.element (octets "xx") 0
        (.rule growingLeft.key)).trace.size = 4 := by
    rfl
  obtain ⟨book, _, _, _, bounded⟩ :=
    @matches_keep_order { verbose := true } (some (.ofRules [growingLeft]))
      growingLeft.element (octets "xx") 0 (.rule growingLeft.key)
  rw [traced] at bounded
  exact ⟨traced, bounded (Occurrence.placed_root rfl) (by decide) (by decide)⟩

end Conformance

end AbnfMatching
