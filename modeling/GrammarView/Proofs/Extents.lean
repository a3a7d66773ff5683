import GrammarView.Diagram.Measure
import GrammarView.Proofs.Drawn
import GrammarView.Proofs.Expressions
import Mathlib

/-!
# Extents

What measuring gives for the tracks of diagrams, in exact numbers. Every track that is built for an
expression is at least as wide and as high as an empty box, and its extent is made of those of the
tracks inside it: the parts of a sequence stand next to each other and share one line, the branches
of a choice hang below each other.

An extent is computed from left to right, or from top to bottom. The sums and bounds here say what
comes out without the order.
-/

namespace GrammarView

namespace Grid

@[simp]
theorem arcRadius_rat : (arcRadius : Rat) = 1 / 2 := by norm_num [arcRadius]

@[simp]
theorem boxHeight_rat : (boxHeight : Rat) = 4 / 5 := by norm_num [boxHeight]

@[simp]
theorem sequenceGap_rat : (sequenceGap : Rat) = 1 / 2 := by norm_num [sequenceGap]

@[simp]
theorem choiceGap_rat : (choiceGap : Rat) = 1 / 5 := by norm_num [choiceGap]

@[simp]
theorem stackGap_rat : (stackGap : Rat) = 1 := by norm_num [stackGap]

@[simp]
theorem ruleStub_rat : (ruleStub : Rat) = 1 / 2 := by norm_num [ruleStub]

@[simp]
theorem capRadius_rat : (capRadius : Rat) = 1 / 5 := by norm_num [capRadius]

@[simp]
theorem definitionMargin_rat : (definitionMargin : Rat) = 1 / 2 := by norm_num [definitionMargin]

@[simp]
theorem definitionBanner_rat : (definitionBanner : Rat) = 9 / 4 := by norm_num [definitionBanner]

@[simp]
theorem definitionFooter_rat : (definitionFooter : Rat) = 1 := by norm_num [definitionFooter]

@[simp]
theorem sheetMargin_rat : (sheetMargin : Rat) = 1 / 2 := by norm_num [sheetMargin]

/-- A count is the same exact number. -/
theorem ofCount_rat (count : Nat) : (Scalar.ofCount count : Rat) = count := by
  change mkRat (Int.ofNat count) 1 = count
  simp [Rat.mkRat_eq_div]

/-- A box is at least as wide as the space beside its text. -/
theorem one_le_boxWidth (text : String) : (1 : Rat) ≤ boxWidth text := by
  have count : (0 : Rat) ≤ text.length := Nat.cast_nonneg _
  rw [boxWidth, ofCount_rat]
  linarith

/-- The width of a tab in exact numbers. -/
theorem tabWidth_rat (name : String) : (tabWidth name : Rat) = name.length * (9 / 25) + 2 / 5 := by
  rw [tabWidth, ofCount_rat]
  norm_num

end Grid

/-- Whether an exact number is zero. -/
theorem isZero_rat (value : Rat) : Scalar.isZero value = decide (value = 0) := by
  norm_num [Scalar.isZero, Scalar.isSame]

/-- The greater of two exact numbers. -/
theorem greater_rat (first second : Rat) : Scalar.greater first second = max first second := by
  rw [Scalar.greater, max_def]
  simp only [Scalar.isLess, decide_eq_true_eq]
  grind

namespace Track

open Grid

section Extents

variable {gap : Rat} {item separator : Extent Rat}

theorem zeroOrOneExtent_rat : zeroOrOneExtent item
    = ⟨item.width + 2, 1 / 2, item.above + item.below + 1 / 2⟩ := by
  norm_num [zeroOrOneExtent]

theorem zeroOrMoreExtent_rat : zeroOrMoreExtent item
    = ⟨item.width + 1, item.above + item.below + 1 / 2, 1 / 2⟩ := by
  norm_num [zeroOrMoreExtent]

theorem oneOrMoreExtent_rat : oneOrMoreExtent item
    = ⟨item.width + 1, item.above + 3 / 4, item.below⟩ := by
  norm_num [oneOrMoreExtent]

theorem listExtent_rat : listExtent item separator
    = ⟨max item.width separator.width + 1, separator.above + separator.below + item.above,
      item.below⟩ := by
  norm_num [listExtent, greater_rat]

theorem definitionExtent_rat {left right : Rat} : definitionExtent left right item
    = ⟨item.width + left + right, item.above + 9 / 4, item.below + 1⟩ := by
  norm_num [definitionExtent]

theorem ruleExtent_rat {stub : Rat} : ruleExtent stub item
    = ⟨item.width + stub * 2, item.above, item.below⟩ := by
  norm_num [ruleExtent]

end Extents

end Track

namespace Extent

/-- Whether an extent reaches to both sides of its line, if it reaches anywhere. -/
structure Upright (extent : Extent Rat) : Prop where
  above : 0 ≤ extent.above
  below : 0 ≤ extent.below

/-- Whether an extent has room for an empty box. -/
structure HoldsBox (extent : Extent Rat) : Prop where
  width : 1 ≤ extent.width
  above : 1 / 2 ≤ extent.above
  below : 1 / 2 ≤ extent.below

/-- Room for a box is to both sides of the line. -/
theorem HoldsBox.upright {extent : Extent Rat} (room : extent.HoldsBox) : extent.Upright :=
  ⟨by linarith [room.above], by linarith [room.below]⟩

/-- Room for a box takes some height. -/
theorem HoldsBox.high {extent : Extent Rat} (room : extent.HoldsBox) :
    0 < extent.above + extent.below := by
  linarith [room.above, room.below]

/-- Whether an extent reaches no further above and below its line than another one. -/
structure Under (part whole : Extent Rat) : Prop where
  above : part.above ≤ whole.above
  below : part.below ≤ whole.below

/-- The length of parts next to each other, with a gap after each. -/
def row (gap : Rat) (parts : List (Extent Rat)) : Rat :=
  (parts.map fun part => part.width + gap).sum

/-- The height of parts below each other, with a gap after each. -/
def column (gap : Rat) (parts : List (Extent Rat)) : Rat :=
  (parts.map fun part => part.above + part.below + gap).sum

@[simp]
theorem row_cons (gap : Rat) (part : Extent Rat) (parts : List (Extent Rat)) :
    row gap (part :: parts) = part.width + gap + row gap parts :=
  List.sum_cons

@[simp]
theorem column_cons (gap : Rat) (part : Extent Rat) (parts : List (Extent Rat)) :
    column gap (part :: parts) = part.above + part.below + gap + column gap parts :=
  List.sum_cons

/-- Parts with room for a box take some length. -/
theorem row_nonneg {gap : Rat} {parts : List (Extent Rat)} (gaps : 0 ≤ gap)
    (room : ∀ part ∈ parts, part.HoldsBox) : 0 ≤ row gap parts := by
  refine List.sum_nonneg fun length member => ?_
  obtain ⟨part, inside, rfl⟩ := List.mem_map.mp member
  linarith [(room part inside).width]

/-- Upright parts take some height, if any. -/
theorem column_nonneg {gap : Rat} {parts : List (Extent Rat)} (gaps : 0 ≤ gap)
    (upright : ∀ part ∈ parts, part.Upright) : 0 ≤ column gap parts := by
  refine List.sum_nonneg fun height member => ?_
  obtain ⟨part, inside, rfl⟩ := List.mem_map.mp member
  linarith [(upright part inside).above, (upright part inside).below]

end Extent

namespace Track

open Grid

section Sequences

variable {gap : Rat} {first : Extent Rat} {parts : List (Extent Rat)}

/-- What a sequence that goes on with further parts comes to: its length is the sum, and it reaches
as far above and below as any part. -/
theorem foldl_appendExtent (gap : Rat) (whole : Extent Rat) (parts : List (Extent Rat)) :
    (parts.foldl (appendExtent gap) whole).width = whole.width + Extent.row gap parts ∧
      whole.Under (parts.foldl (appendExtent gap) whole) ∧
      ∀ part ∈ parts, part.Under (parts.foldl (appendExtent gap) whole) := by
  induction parts generalizing whole with
  | nil => exact ⟨by simp [Extent.row], ⟨le_refl _, le_refl _⟩, nofun⟩
  | cons part rest inductionHypothesis =>
    have appended : appendExtent gap whole part = ⟨whole.width + (gap + part.width),
        max whole.above part.above, max whole.below part.below⟩ := by
      rw [appendExtent, greater_rat, greater_rat]
    rw [List.foldl_cons, appended, Extent.row_cons]
    obtain ⟨width, ⟨above, below⟩, others⟩ := inductionHypothesis ⟨whole.width + (gap + part.width),
      max whole.above part.above, max whole.below part.below⟩
    rw [max_le_iff] at above below
    refine ⟨?_, ⟨above.1, below.1⟩, List.forall_mem_cons.mpr ⟨⟨above.2, below.2⟩, others⟩⟩
    rw [width]
    ring

/-- The length of a sequence is the sum of those of its parts, with gaps between them. -/
theorem sequenceExtent_width :
    (sequenceExtent gap (first :: parts)).width = first.width + Extent.row gap parts :=
  (foldl_appendExtent gap first parts).1

/-- A sequence reaches as far above and below as each of its parts. -/
theorem under_sequenceExtent : ∀ part ∈ first :: parts,
    part.Under (sequenceExtent gap (first :: parts)) :=
  List.forall_mem_cons.mpr (foldl_appendExtent gap first parts).2

end Sequences

section Piles

variable {gap : Rat} {first : Extent Rat} {parts : List (Extent Rat)}

/-- What a pile that goes on with further parts comes to: its height is the sum, it is entered on
the line of the first part, and it is as wide as any part. -/
theorem foldl_add (gaps : 0 ≤ gap) (pile : Pile Rat) (high : 0 < pile.height)
    (upright : ∀ part ∈ parts, part.Upright) :
    (parts.foldl (Pile.add gap) pile).height = pile.height + Extent.column gap parts ∧
      (parts.foldl (Pile.add gap) pile).above = pile.above ∧
      pile.width ≤ (parts.foldl (Pile.add gap) pile).width ∧
      ∀ part ∈ parts, part.width ≤ (parts.foldl (Pile.add gap) pile).width := by
  induction parts generalizing pile with
  | nil => exact ⟨by simp [Extent.column], rfl, le_refl _, nofun⟩
  | cons part rest inductionHypothesis =>
    obtain ⟨here, later⟩ := List.forall_mem_cons.mp upright
    have added : pile.add gap part = ⟨max pile.width part.width, pile.above,
        pile.height + (part.above + part.below + gap)⟩ := by
      simp [Pile.add, isZero_rat, greater_rat, high.ne']
    rw [List.foldl_cons, added, Extent.column_cons]
    have higher : 0 < pile.height + (part.above + part.below + gap) := by
      linarith [here.above, here.below]
    obtain ⟨height, above, width, others⟩ := inductionHypothesis ⟨max pile.width part.width,
      pile.above, pile.height + (part.above + part.below + gap)⟩ higher later
    rw [max_le_iff] at width
    refine ⟨?_, above, width.1, List.forall_mem_cons.mpr ⟨width.2, others⟩⟩
    rw [height]
    ring

/-- A stack has the line of its first diagram, and the other ones below that, if there are others
only where the first one takes some height. -/
theorem stackExtent_eq (gaps : 0 ≤ gap) (upright : ∀ part ∈ parts, part.Upright)
    (high : parts ≠ [] → 0 < first.above + first.below) :
    (∀ part ∈ first :: parts, part.width ≤ (stackExtent gap (first :: parts)).width) ∧
      (stackExtent gap (first :: parts)).above = first.above ∧
      (stackExtent gap (first :: parts)).below = first.below + Extent.column gap parts := by
  have begins : (Pile.start false : Pile Rat).add gap first
      = ⟨first.width, first.above, first.above + first.below⟩ := by
    norm_num [Pile.start, Pile.add, isZero_rat]
  simp only [stackExtent, List.foldl_cons, begins, Pile.extent]
  cases parts with
  | nil => simp [Extent.column]
  | cons second rest =>
    obtain ⟨height, above, width, others⟩ := foldl_add gaps
      ⟨first.width, first.above, first.above + first.below⟩ (high (List.cons_ne_nil _ _)) upright
    refine ⟨List.forall_mem_cons.mpr ⟨width, others⟩, above, ?_⟩
    rw [height, above]
    ring

/-- The first of several diagrams is forgotten in the measuring of a stack if it takes no height. -/
theorem stackExtent_of_flat {second : Extent Rat} (flat : first.above + first.below = 0) :
    stackExtent gap (first :: second :: parts) = stackExtent gap (second :: parts) := by
  have begins : (Pile.start false : Pile Rat).add gap first = ⟨first.width, first.above, 0⟩ := by
    norm_num [Pile.start, Pile.add, isZero_rat, flat]
  have again : (⟨first.width, first.above, 0⟩ : Pile Rat).add gap second
      = (Pile.start false : Pile Rat).add gap second := by
    norm_num [Pile.start, Pile.add, isZero_rat]
  rw [stackExtent, List.foldl_cons, begins, List.foldl_cons, again, ← List.foldl_cons,
    ← stackExtent]

/-- A choice without an empty branch is a stack between arcs. -/
theorem choiceExtent_false (items : List (Extent Rat)) : choiceExtent gap false items
    = ⟨(stackExtent gap items).width + 2, (stackExtent gap items).above,
      (stackExtent gap items).below⟩ := by
  norm_num [choiceExtent, stackExtent]

/-- A choice with an empty branch has the line of that branch, and all other ones below it. -/
theorem choiceExtent_true (gaps : 0 ≤ gap) (upright : ∀ part ∈ parts, part.Upright) :
    (∀ part ∈ parts, part.width + 2 ≤ (choiceExtent gap true parts).width) ∧
      (choiceExtent gap true parts).above = 1 / 2 ∧
      (choiceExtent gap true parts).below = 1 / 2 + Extent.column gap parts := by
  have begins : (Pile.start true : Pile Rat) = ⟨0, 1 / 2, 1⟩ := by norm_num [Pile.start]
  obtain ⟨height, above, -, others⟩ := foldl_add gaps ⟨0, 1 / 2, 1⟩ one_pos upright
  have whole : choiceExtent gap true parts
      = ⟨(parts.foldl (Pile.add gap) ⟨0, 1 / 2, 1⟩).width + 2, 1 / 2,
        1 / 2 + Extent.column gap parts⟩ := by
    norm_num [choiceExtent, begins, Pile.extent, height, above]
    ring
  rw [whole]
  exact ⟨fun part member => add_le_add_left (others part member) 2, rfl, rfl⟩

end Piles

/-- A sequence of tracks with room for a box has room for one. -/
theorem sequence_holdsBox {gap : Rat} {first : Extent Rat} {parts : List (Extent Rat)}
    (gaps : 0 ≤ gap) (room : ∀ part ∈ first :: parts, part.HoldsBox) :
    (sequenceExtent gap (first :: parts)).HoldsBox := by
  obtain ⟨here, later⟩ := List.forall_mem_cons.mp room
  obtain ⟨above, below⟩ : first.Under (sequenceExtent gap (first :: parts)) :=
    under_sequenceExtent first (.head _)
  refine ⟨?_, here.above.trans above, here.below.trans below⟩
  rw [sequenceExtent_width]
  linarith [here.width, Extent.row_nonneg gaps later]

/-- A choice between tracks with room for a box has room for one. -/
theorem choice_holdsBox {gap : Rat} {optional : Bool} {first : Extent Rat}
    {parts : List (Extent Rat)} (gaps : 0 ≤ gap) (room : ∀ part ∈ first :: parts, part.HoldsBox) :
    (choiceExtent gap optional (first :: parts)).HoldsBox := by
  have upright := fun part member => (room part member).upright
  obtain ⟨here, -⟩ := List.forall_mem_cons.mp room
  obtain ⟨-, later⟩ := List.forall_mem_cons.mp upright
  cases optional with
  | true =>
    obtain ⟨widths, above, below⟩ := choiceExtent_true gaps upright
    refine ⟨?_, above.ge, ?_⟩
    · linarith [here.width, widths first (.head _)]
    · rw [below]
      linarith [Extent.column_nonneg gaps upright]
  | false =>
    obtain ⟨widths, above, below⟩ := stackExtent_eq gaps later fun _ => here.high
    rw [choiceExtent_false]
    refine ⟨?_, here.above.trans above.ge, ?_⟩
    · linarith [here.width, widths first (.head _)]
    · rw [below]
      linarith [here.below, Extent.column_nonneg gaps later]

/-- A choice between tracks with room for a box is as wide as each of them between its arcs. -/
theorem width_le_choiceExtent {gap : Rat} {optional : Bool} {parts : List (Extent Rat)}
    (gaps : 0 ≤ gap) (room : ∀ part ∈ parts, part.HoldsBox) :
    ∀ part ∈ parts, part.width + 2 ≤ (choiceExtent gap optional parts).width := by
  have upright := fun part member => (room part member).upright
  cases optional with
  | true => exact (choiceExtent_true gaps upright).1
  | false =>
    cases parts with
    | nil => exact nofun
    | cons first rest =>
      obtain ⟨widths, -⟩ := stackExtent_eq gaps (List.forall_mem_cons.mp upright).2
        fun _ => (room first (.head _)).high
      rw [choiceExtent_false]
      exact fun part member => add_le_add_left (widths part member) 2

/-- Tracks that have been measured, of the kinds that are drawn for expressions: no sequence and no
choice is empty, and no margin is negative. -/
inductive Measured : Track Rat → Prop where
  | box {width shape text} (wide : 1 ≤ width) : Measured (.box ⟨width, 1 / 2, 1 / 2⟩ shape text)
  | sequence {whole items} (exact : whole = sequenceExtent sequenceGap (items.map extent))
      (nonempty : items ≠ []) (parts : ∀ item ∈ items, Measured item) :
      Measured (.sequence whole sequenceGap items)
  | choice {whole optional items}
      (exact : whole = choiceExtent choiceGap optional (items.map extent))
      (nonempty : items ≠ []) (parts : ∀ item ∈ items, Measured item) :
      Measured (.choice whole choiceGap optional items)
  | zeroOrOne {item} (part : Measured item) :
      Measured (.zeroOrOne (zeroOrOneExtent item.extent) item)
  | zeroOrMore {item} (part : Measured item) :
      Measured (.zeroOrMore (zeroOrMoreExtent item.extent) item)
  | oneOrMore {item} (part : Measured item) :
      Measured (.oneOrMore (oneOrMoreExtent item.extent) item)
  | list {item separator} (onward : Measured item) (returning : Measured separator) :
      Measured (.list (listExtent item.extent separator.extent) item separator)
  | definition {name left right item} (leftMargin : 0 ≤ left) (rightMargin : 0 ≤ right)
      (part : Measured item) :
      Measured (.definition (definitionExtent left right item.extent) name left right item)

/-- A measured track has room for a box. -/
theorem Measured.holdsBox {track : Track Rat} (measured : track.Measured) :
    track.extent.HoldsBox := by
  induction measured with
  | box wide => exact ⟨wide, le_refl _, le_refl _⟩
  | sequence exact nonempty _ parts =>
    obtain ⟨first, rest, rfl⟩ := List.exists_cons_of_ne_nil nonempty
    exact exact ▸ sequence_holdsBox (by norm_num) (List.forall_mem_map.mpr parts)
  | choice exact nonempty _ parts =>
    obtain ⟨first, rest, rfl⟩ := List.exists_cons_of_ne_nil nonempty
    exact exact ▸ choice_holdsBox (by norm_num) (List.forall_mem_map.mpr parts)
  | zeroOrOne _ item =>
    rw [extent, zeroOrOneExtent_rat]
    exact ⟨by linarith [item.width], le_refl _, by linarith [item.above, item.below]⟩
  | zeroOrMore _ item =>
    rw [extent, zeroOrMoreExtent_rat]
    exact ⟨by linarith [item.width], by linarith [item.above, item.below], le_refl _⟩
  | oneOrMore _ item =>
    rw [extent, oneOrMoreExtent_rat]
    exact ⟨by linarith [item.width], by linarith [item.above], item.below⟩
  | @list item separator _ _ itemHolds separatorHolds =>
    have widest := le_max_left item.extent.width separator.extent.width
    rw [extent, listExtent_rat]
    exact ⟨by linarith [itemHolds.width],
      by linarith [itemHolds.above, separatorHolds.above, separatorHolds.below], itemHolds.below⟩
  | definition leftMargin rightMargin _ item =>
    rw [extent, definitionExtent_rat]
    exact ⟨by linarith [item.width], by linarith [item.above], by linarith [item.below]⟩

section Measuring

variable {track : Track Rat} {tracks : List (Track Rat)}

/-- Several tracks are measured one by one. -/
theorem measureAll_eq_map {α : Type} [Scalar α] (items : List (Track α)) :
    measureAll items = items.map measure := by
  induction items with
  | nil => rfl
  | cons item rest inductionHypothesis => rw [measureAll, inductionHypothesis, List.map_cons]

/-- A box is measured to be one line high. -/
theorem measure_boxOf (shape : Shape) (text : String) :
    (boxOf shape text : Track Rat).measure = .box ⟨boxWidth text, 1 / 2, 1 / 2⟩ shape text := by
  norm_num [boxOf, measure, leafExtent, Scalar.orElse, isZero_rat]

/-- The measured form of a box is measured. -/
theorem measured_boxOf (shape : Shape) (text : String) :
    (boxOf shape text : Track Rat).measure.Measured :=
  measure_boxOf shape text ▸ .box (one_le_boxWidth text)

/-- A sequence of measured parts is measured. -/
theorem measured_sequenceOf (nonempty : tracks ≠ [])
    (parts : ∀ track ∈ tracks, track.measure.Measured) : (sequenceOf tracks).measure.Measured := by
  rw [sequenceOf, measure, measureAll_eq_map]
  exact .sequence rfl (by simpa using nonempty) (List.forall_mem_map.mpr parts)

/-- A choice between measured branches is measured. -/
theorem measured_choiceOf (nonempty : tracks ≠ [])
    (parts : ∀ track ∈ tracks, track.measure.Measured) : (choiceOf tracks).measure.Measured := by
  rw [choiceOf, measure, measureAll_eq_map]
  exact .choice rfl (by simpa using nonempty) (List.forall_mem_map.mpr parts)

/-- A measured track is measured when it may be left out. -/
theorem Measured.optionally (measured : track.measure.Measured) :
    track.optionally.measure.Measured := by
  cases track with
  | choice =>
    rw [measure] at measured
    cases measured with
    | choice _ nonempty parts => exact .choice rfl nonempty parts
  | _ => exact .zeroOrOne measured

/-- A measured track is measured when it is passed any number of times. -/
theorem Measured.anyNumberOf (measured : track.measure.Measured) :
    track.anyNumberOf.measure.Measured := by
  cases track with
  | sequence | definition | choice => exact .oneOrMore measured.optionally
  | _ => exact .zeroOrMore measured

end Measuring

end Track

/-- Whether the given margins of a rule are not negative. -/
def Rule.NonnegativeMargins (rule : Rule) : Prop :=
  ∀ margin, rule.left = some margin ∨ rule.right = some margin → 0 ≤ Double.toRat margin

/-- Whether a part is anything but a sequence, a choice or tokens of nothing. -/
def Expr.Filled (expr : Expr) : Prop :=
  expr ≠ .sequence [] ∧ expr ≠ .choice [] ∧ expr ≠ .tokens []

/-- What makes the diagrams of rules ones with room for a box in every part: no margin is negative,
and no part of a body is empty. -/
structure RuleSet.Roomy (grammar : RuleSet) : Prop where
  margins : ∀ rule ∈ grammar.rules, rule.NonnegativeMargins
  filled : ∀ rule ∈ grammar.rules, Expr.Throughout Expr.Filled [rule.body]

namespace Building

/-- The margin of a definition is not negative if the given one is not. -/
theorem marginOf_nonneg {given : Option Float}
    (nonneg : ∀ margin, given = some margin → 0 ≤ Double.toRat margin) :
    (0 : Rat) ≤ marginOf given := by
  cases given with
  | none => norm_num [marginOf]
  | some margin =>
    rw [marginOf]
    split
    · norm_num
    · exact nonneg margin rfl

/-- A panel around a measured track is measured. -/
theorem measured_panel {rule : Rule} {track : Track Rat} (margins : rule.NonnegativeMargins)
    (measured : track.measure.Measured) : (panel rule track).measure.Measured :=
  .definition (marginOf_nonneg fun margin given => margins margin (.inl given))
    (marginOf_nonneg fun margin given => margins margin (.inr given)) measured

variable {grammar : RuleSet} {place : Place} {before after : Option Nesting} {exprs : List Expr}
  {tracks : List (Track Rat)}

/-- A leaf that is not empty is drawn by measured boxes. -/
theorem DrawsLeaf.measured {owner : String} {expr : Expr} {track : Track Rat}
    (leaf : DrawsLeaf owner expr track) (filled : expr.Filled) : track.measure.Measured := by
  cases leaf with
  | @tokens texts =>
    obtain ⟨-, -, some⟩ := filled
    refine Track.measured_choiceOf ?_ (List.forall_mem_map.mpr fun _ _ => Track.measured_boxOf _ _)
    rintro none
    exact some (congrArg Expr.tokens (List.map_eq_nil_iff.mp none))
  | _ => exact Track.measured_boxOf _ _

/-- Something is drawn for every expression. -/
theorem Draws.tracks_ne_nil (draws : Draws grammar place before exprs tracks after)
    (some : exprs ≠ []) : tracks ≠ [] := by
  cases draws with
  | nil => contradiction
  | _ => exact List.cons_ne_nil _ _

/-- A list is drawn from its item and its separator, no part of which is empty. -/
theorem filled_list {name : String} {separator : Expr}
    (filled : Expr.Throughout Expr.Filled [.list name separator]) :
    Expr.Throughout Expr.Filled [.reference name, separator] := by
  refine Expr.throughout_cons.mpr ⟨?_, (Expr.throughout_list.mp filled).2⟩
  simp [Expr.Throughout, Expr.partsOfAll, Expr.parts, Expr.Filled]

/-- Everything that is drawn from the bodies of roomy rules is measured. -/
theorem Draws.measured (draws : Draws grammar place before exprs tracks after)
    (roomy : grammar.Roomy) (filled : Expr.Throughout Expr.Filled exprs) :
    ∀ track ∈ tracks, track.measure.Measured := by
  have body {name : String} {rule : Rule} (found : grammar.get? name = some rule) :
      Expr.Throughout Expr.Filled [rule.body] :=
    roomy.filled rule (RuleSet.get?_eq_some found).1
  induction draws with
  | nil => exact nofun
  | cons _ _ first others =>
    obtain ⟨here, later⟩ := Expr.throughout_cons.mp filled
    exact List.forall_mem_cons.mpr ⟨first here _ (.head _), others later⟩
  | leaf leaf =>
    exact List.forall_mem_singleton.mpr (leaf.measured (filled _ (Expr.self_mem_partsOfAll _)))
  | sequence draws parts =>
    obtain ⟨⟨some, -, -⟩, inner⟩ := Expr.throughout_sequence.mp filled
    have nonempty := draws.tracks_ne_nil (mt (congrArg Expr.sequence) some)
    exact List.forall_mem_singleton.mpr (Track.measured_sequenceOf nonempty (parts inner))
  | choice draws parts =>
    obtain ⟨⟨-, some, -⟩, inner⟩ := Expr.throughout_choice.mp filled
    have nonempty := draws.tracks_ne_nil (mt (congrArg Expr.choice) some)
    exact List.forall_mem_singleton.mpr (Track.measured_choiceOf nonempty (parts inner))
  | list _ parts =>
    obtain ⟨onward, returning⟩ := List.forall_mem_cons.mp (parts (filled_list filled))
    exact List.forall_mem_singleton.mpr (.list onward (returning _ (.head _)))
  | @quantified _ _ _ quantifier _ _ _ part =>
    have measured := part (Expr.throughout_quantified.mp filled).2 _ (.head _)
    refine List.forall_mem_singleton.mpr ?_
    cases quantifier with
    | zeroOrOne => exact measured.optionally
    | zeroOrMore => exact measured.anyNumberOf
    | oneOrMore => exact .oneOrMore measured
  | box => exact List.forall_mem_singleton.mpr (Track.measured_boxOf _ _)
  | splice found _ _ _ inner => exact inner (body found)
  | panel found _ _ _ inner =>
    exact List.forall_mem_singleton.mpr (measured_panel
      (roomy.margins _ (RuleSet.get?_eq_some found).1) (inner (body found) _ (.head _)))

end Building

/-- The panel in the diagram of a rule of roomy rules. -/
theorem RuleSet.Roomy.measured_panel {grammar : RuleSet} (roomy : grammar.Roomy) {rule : Rule}
    (member : rule ∈ grammar.rules) (nesting : Option Nesting) :
    (Building.panel rule (Building.build grammar (grammar.topPlace rule) nesting
      rule.body).1 : Track Rat).measure.Measured := by
  have draws := Building.draws_build (α := Rat) grammar (grammar.topPlace rule) nesting rule.body
    (Building.covered_topPlace grammar rule nesting)
  have measured := draws.measured roomy (roomy.filled rule member) _ (.head _)
  exact Building.measured_panel (roomy.margins rule member) measured

end GrammarView
