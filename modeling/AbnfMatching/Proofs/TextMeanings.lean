import AbnfMatching.Proofs.LetterCase
import AbnfMatching.Proofs.RenderedLanguage

/-!
# What a text means

The text of a terminal tells which slices it accepts, with one exception. A
literal that cannot be quoted is spelled out in hexadecimal, and a spelled-out
literal stands for its octets as they are: whether letter case matters is lost.

The text of an element tells its normal form, as long as the names are plain and
the normal form does not repeat a repetition directly.
-/

namespace AbnfMatching

/-! ## Terminals -/

namespace Terminal

/-- A literal that is compared up to letter case, contains a letter and cannot
be quoted. -/
def LosesCase : Terminal → Bool
  | literal bytes .insensitive => !bytes.all isQuotable && bytes.any isLetter
  | _ => false

theorem accepts_spelledOut (bytes slice : Octets) :
    (spelledOut bytes).accepts slice = (slice == bytes) := by
  unfold spelledOut
  split <;> rfl

theorem spelledOut_injective : Function.Injective spelledOut := by
  intro left right same
  have accepted : (spelledOut right).accepts left = true := by
    rw [← same, accepts_spelledOut]
    exact beq_self_eq_true left
  rw [accepts_spelledOut] at accepted
  exact eq_of_beq accepted

theorem swapCase_ne_of_isLetter
    {octet : UInt8} (letter : isLetter octet = true) :
    swapCase octet ≠ octet := by
  intro same
  have codes := congrArg UInt8.toNat same
  rw [isLetter_iff, isCapital_iff] at letter
  rw [toNat_swapCase] at codes
  grind

theorem foldCase_map_swapCase (bytes : Octets) :
    foldCase (bytes.map swapCase) = foldCase bytes := by
  rw [foldCase, foldCase, List.map_map]
  apply List.map_congr_left
  intro octet _
  exact foldOctet_eq_iff.mpr (Or.inr rfl)

section Normal

variable {terminal left right : Terminal}

/-- A literal loses its case if it is spelled out although letter case does not
matter. -/
theorem losesCase_iff :
    terminal.LosesCase = true ↔
      ∃ bytes, terminal = .literal bytes .insensitive ∧
        terminal.normal = spelledOut bytes ∧
        ∃ octet ∈ bytes, isLetter octet = true := by
  constructor
  · intro loses
    match terminal, loses with
    | .literal bytes .insensitive, loses =>
        simp only [LosesCase, Bool.and_eq_true, Bool.not_eq_true',
          List.any_eq_true] at loses
        refine ⟨bytes, rfl, ?_, loses.2⟩
        rw [normal, if_neg (by simp [loses.1])]
  · intro spelled
    obtain ⟨bytes, rfl, spelled, letters⟩ := spelled
    have unquotable : bytes.all isQuotable = false := by
      by_contra quotable
      rw [Bool.not_eq_false] at quotable
      rw [normal, if_pos quotable] at spelled
      cases bytes with
      | nil => cases spelled
      | cons first more => cases more <;> cases spelled
    simp [LosesCase, unquotable, letters]

/-- A terminal that does not lose its case accepts what its normal form
accepts. -/
theorem accepts_normal
    (keeps : terminal.LosesCase = false) (slice : Octets) :
    terminal.normal.accepts slice = terminal.accepts slice := by
  cases terminal with
  | octet value => rfl
  | range interval => rfl
  | literal bytes letterCase =>
      by_cases quotable : bytes.all isQuotable = true
      · rw [normal, if_pos quotable]
      · rw [normal, if_neg quotable, accepts_spelledOut]
        cases letterCase with
        | sensitive => rfl
        | insensitive =>
            have noLetters : ∀ octet ∈ bytes, isLetter octet = false := by
              simpa [LosesCase, quotable] using keeps
            rw [Bool.eq_iff_iff, accepts, sameFolded, beq_iff_eq, beq_iff_eq]
            constructor
            · intro same
              rw [same]
            · exact eq_of_foldCase_eq noLetters

/-- A terminal that loses its case accepts a slice that its normal form does not
accept. -/
theorem exists_accepts_of_losesCase (loses : terminal.LosesCase = true) :
    ∃ slice, terminal.accepts slice = true ∧
      terminal.normal.accepts slice = false := by
  obtain ⟨bytes, rfl, spelled, octet, member, letter⟩ := losesCase_iff.mp loses
  refine ⟨bytes.map swapCase, ?_, ?_⟩
  · rw [accepts, sameFolded, foldCase_map_swapCase]
    exact beq_self_eq_true _
  · rw [spelled, accepts_spelledOut, beq_eq_false_iff_ne]
    intro same
    have fixed := List.map_inj_left.mp (same.trans (List.map_id bytes).symm)
    exact swapCase_ne_of_isLetter letter (fixed octet member)

/-- If one of two terminals with the same normal form loses its case and the
other one does not, they are told apart by some slice. -/
theorem exists_accepts_ne
    (same : left.normal = right.normal)
    (loses : left.LosesCase = true) (keeps : right.LosesCase = false) :
    ∃ slice, left.accepts slice ≠ right.accepts slice := by
  obtain ⟨slice, accepted, refused⟩ := exists_accepts_of_losesCase loses
  refine ⟨slice, ?_⟩
  rw [accepted, ← accepts_normal keeps, ← same, refused]
  exact nofun

/-- Terminals with the same text accept the same slices if and only if both of
them lose their case or neither does. -/
theorem accepts_eq_iff_of_text_eq (same : left.text = right.text) :
    (∀ slice, left.accepts slice = right.accepts slice) ↔
      left.LosesCase = right.LosesCase := by
  have texts : left.text ++ [] = right.text ++ [] := by
    rw [same]
  have normals : left.normal = right.normal :=
    (text_append_inj beginsWithSpace_nil beginsWithSpace_nil texts).1
  constructor
  · intro agree
    cases loses : left.LosesCase <;> cases loses' : right.LosesCase
    -- The normal forms are equal, so a difference in case shows in a slice.
    · rfl
    · obtain ⟨slice, differs⟩ := exists_accepts_ne normals.symm loses' loses
      exact absurd (agree slice).symm differs
    · obtain ⟨slice, differs⟩ := exists_accepts_ne normals loses loses'
      exact absurd (agree slice) differs
    · rfl
  · intro alike slice
    cases loses : left.LosesCase with
    | false =>
        rw [← accepts_normal loses, normals,
          accepts_normal (alike.symm.trans loses)]
    | true =>
        obtain ⟨bytes, rfl, spelled, _⟩ := losesCase_iff.mp loses
        obtain ⟨bytes', rfl, spelled', _⟩ :=
          losesCase_iff.mp (alike.symm.trans loses)
        rw [spelled, spelled'] at normals
        rw [spelledOut_injective normals]

end Normal

/-- A line break is spelled out, whether letter case matters or not, and means
the same. -/
theorem accepts_eq_iff_of_text_eq_lineBreak :
    (caseless [0x0D, 0x0A]).text = (exactly [0x0D, 0x0A]).text ∧
    ∀ slice, (caseless [0x0D, 0x0A]).accepts slice =
      (exactly [0x0D, 0x0A]).accepts slice := by
  have same : (caseless [0x0D, 0x0A]).text = (exactly [0x0D, 0x0A]).text := by
    decide
  exact ⟨same, (accepts_eq_iff_of_text_eq same).mpr (by decide)⟩

/-- With a letter it does not: `%x61.01` may or may not stand for a capital `A`
and a control octet. -/
theorem accepts_differ_of_text_eq :
    (caseless [0x61, 0x01]).text = (exactly [0x61, 0x01]).text ∧
    (caseless [0x61, 0x01]).accepts [0x41, 0x01] = true ∧
    (exactly [0x61, 0x01]).accepts [0x41, 0x01] = false := by
  decide

end Terminal

/-! ## Elements -/

namespace Element

/-- No repetition is the direct operand of a repetition. -/
def RepetitionsApart (element : Element) : Prop :=
  ∀ bounds inner core,
    .repetition bounds (.repetition inner core) ∉ element.nodes

section Normal

variable {element left right part node : Element}

theorem nodes_normal_subset_joint
    (joint : Joint) {parts : List Element} (member : part ∈ parts) :
    part.normal.nodes ⊆ (joint.element parts).normal.nodes := by
  match parts, member with
  | [sole], member =>
      rw [List.mem_singleton.mp member, normal_singleton]
      exact List.Subset.refl _
  | first :: next :: more, member =>
      rw [normal_group]
      apply nodes_subset_of_mem_children
      rw [children_joint]
      exact List.mem_map_of_mem member

/-- The normal form of a constituent is found in the normal form. -/
theorem nodes_normal_subset (member : part ∈ element.children) :
    part.normal.nodes ⊆ element.normal.nodes := by
  cases element with
  | terminal value =>
      cases member
  | reference name =>
      cases member
  | sequence parts =>
      exact nodes_normal_subset_joint .sequence member
  | alternation branches =>
      exact nodes_normal_subset_joint .alternation member
  | option body =>
      cases List.mem_singleton.mp member
      exact nodes_subset_of_mem_children (List.mem_singleton_self _)
  | repetition bounds body =>
      cases List.mem_singleton.mp member
      exact nodes_subset_of_mem_children (List.mem_singleton_self _)

theorem normal_mem_nodes (inside : node ∈ element.nodes) :
    node.normal ∈ element.normal.nodes := by
  induction element using induction_on_children with
  | step element inductionHypothesis =>
      rw [nodes_eq_cons] at inside
      rcases List.mem_cons.mp inside with rfl | below
      · exact mem_nodes_self _
      · obtain ⟨part, member, inPart⟩ := List.mem_flatMap.mp below
        exact nodes_normal_subset member
          (inductionHypothesis part member inPart)

theorem legible_of_normal
    (plain : ∀ name ∈ element.mentions, name.IsPlain)
    (apart : element.normal.RepetitionsApart) :
    element.Legible := by
  refine ⟨plain, ?_⟩
  intro bounds body inside inner core repeats
  have found := normal_mem_nodes inside
  rw [normal, repeats] at found
  exact apart bounds inner core found

/-- Elements with plain names and no repetition repeated directly have the same
text only if they have the same normal form. -/
theorem normal_eq_of_text_eq
    (plain : ∀ name ∈ left.mentions, name.IsPlain)
    (plain' : ∀ name ∈ right.mentions, name.IsPlain)
    (apart : left.normal.RepetitionsApart)
    (apart' : right.normal.RepetitionsApart)
    (same : left.text = right.text) :
    left.normal = right.normal := by
  have legible := legible_of_normal plain apart
  have legible' := legible_of_normal plain' apart'
  exact legible.normal_eq legible' same

end Normal

open Conformance (growingRight plain_growingRight)

/-- Either nothing or `ys`, where nothing is written in some way, and then two
carriage returns, each of them written in some way. -/
def beforeReturns (nothing carriageReturn : Element) : Element :=
  .sequence
    [.alternation [nothing, .option (.reference growingRight.name)],
      .repetition ⟨2, some 2, by simp⟩ carriageReturn]

/-- The empty sequence is written like the empty literal, and a carriage return
in a group of its own, as a literal, like the single octet. -/
theorem normal_eq_of_text_eq_beforeReturns :
    (beforeReturns (.sequence [])
      (.alternation [.terminal (.caseless [0x0D])])).text =
        (beforeReturns (.terminal (.caseless []))
          (.terminal (.octet 0x0D))).text ∧
    (beforeReturns (.sequence [])
      (.alternation [.terminal (.caseless [0x0D])])).normal =
        (beforeReturns (.terminal (.caseless []))
          (.terminal (.octet 0x0D))).normal := by
  have plain : ∀ nothing carriageReturn : Element,
      nothing.mentions = [] → carriageReturn.mentions = [] →
      ∀ name ∈ (beforeReturns nothing carriageReturn).mentions,
        name.IsPlain := by
    intro nothing carriageReturn noName noName' name mentioned
    have sole : name = growingRight.name := by
      simpa [beforeReturns, mentions, mentionsOfAll, noName, noName']
        using mentioned
    rw [sole]
    exact plain_growingRight
  have apart : (beforeReturns (.terminal (.caseless []))
      (.terminal (.octet 0x0D))).RepetitionsApart := by
    intro bounds inner core inside
    simp [beforeReturns, nodes, nodesOfAll] at inside
  have same :
      (beforeReturns (.sequence [])
        (.alternation [.terminal (.caseless [0x0D])])).text =
      (beforeReturns (.terminal (.caseless []))
        (.terminal (.octet 0x0D))).text := by
    decide
  exact ⟨same, normal_eq_of_text_eq (plain _ _ rfl rfl) (plain _ _ rfl rfl)
    apart apart same⟩

end Element

end AbnfMatching
