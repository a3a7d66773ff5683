import GrammarView.Grammar.Validation
import GrammarView.Proofs.Extents
import GrammarView.Proofs.Steps

/-!
# Room in piles

Stacks and choices put their items below each other, and do so twice: when they are measured, and
when they are drawn. Measuring takes an item for the first one if the height so far is zero; drawing
knows the first item by its place. The two agree, and then every item has a slot of its own inside
the extent that was measured, unless the first of several items takes no height. Such an item is
drawn like any other one, but measuring forgets it.
-/

namespace GrammarView

open Grid

/-- Placed tracks below each other, from the upper edge of the first one, with gaps between them. -/
inductive Hung (gap : Rat) : Rat → List (Placed Rat) → Prop where
  | nil {edge} : Hung gap edge []
  | cons {edge slot rest} (top : slot.top = edge) (below : Hung gap (slot.bottom + gap) rest) :
      Hung gap edge (slot :: rest)

namespace Hung

variable {gap edge : Rat} {slots : List (Placed Rat)}

/-- Tracks that hang from an edge reach from there no further down than they are high together. -/
theorem inside (hung : Hung gap edge slots) (gaps : 0 ≤ gap)
    (upright : ∀ slot ∈ slots, slot.track.extent.Upright) :
    ∀ slot ∈ slots, edge ≤ slot.top ∧
      slot.bottom + gap ≤ edge + Extent.column gap (slots.map fun slot => slot.track.extent) := by
  induction hung with
  | nil => exact nofun
  | @cons edge slot rest top below inductionHypothesis =>
    obtain ⟨here, later⟩ := List.forall_mem_cons.mp upright
    have height : 0 ≤ Extent.column gap (rest.map fun slot => slot.track.extent) :=
      Extent.column_nonneg gaps (List.forall_mem_map.mpr later)
    have extent : slot.bottom = slot.top + (slot.track.extent.above + slot.track.extent.below) := by
      rw [Placed.bottom, Placed.top]
      ring
    rw [List.map_cons, Extent.column_cons]
    refine List.forall_mem_cons.mpr ⟨⟨top.ge, by linarith⟩, fun other member => ?_⟩
    obtain ⟨starts, ends⟩ := inductionHypothesis later other member
    exact ⟨by linarith [here.above, here.below], by linarith⟩

/-- Tracks that hang below each other do not overlap. -/
theorem pairwise (hung : Hung gap edge slots) (gaps : 0 ≤ gap)
    (upright : ∀ slot ∈ slots, slot.track.extent.Upright) :
    slots.Pairwise fun upper lower => upper.bottom ≤ lower.top := by
  induction hung with
  | nil => exact .nil
  | cons top below inductionHypothesis =>
    obtain ⟨-, later⟩ := List.forall_mem_cons.mp upright
    refine .cons (fun other member => ?_) (inductionHypothesis later)
    linarith [(below.inside gaps later other member).1]

end Hung

section Steps

variable {gap x y width joint edge : Rat} {items : List (Track Rat)}

/-- The diagrams of a stack hang from the upper edge of the first one. -/
theorem hung_stackSteps (items : List (Track Rat)) :
    Hung gap edge ((stackSteps gap x width edge items).filterMap Step.part?) := by
  induction items generalizing edge with
  | nil => exact .nil
  | cons item rest inductionHypothesis =>
    refine .cons (add_sub_cancel_right _ _) ?_
    rw [Placed.bottom, add_assoc]
    exact inductionHypothesis

/-- Branches that hang from a joint hang from the upper edge of the first one. -/
theorem hung_branchSteps (joint : Rat) (items : List (Track Rat)) :
    Hung gap edge ((branchSteps gap x width joint edge items).filterMap Step.part?) := by
  induction items generalizing joint edge with
  | nil => exact .nil
  | cons item rest inductionHypothesis =>
    refine .cons (add_sub_cancel_right _ _) ?_
    rw [Placed.bottom, add_assoc]
    exact inductionHypothesis _

/-- The branches of a choice without an empty one hang from the upper edge of the first one. -/
theorem hung_choiceSteps (items : List (Track Rat)) :
    Hung gap (Track.upperEdge y items)
      ((choiceSteps gap x y width items).filterMap Step.part?) := by
  cases items with
  | nil => exact .nil
  | cons item rest =>
    refine .cons rfl ?_
    rw [Placed.bottom, add_assoc]
    exact hung_branchSteps _ rest

end Steps

/-- A stack or a choice with the given items and the given gap between them. A choice has room
beside its items, and may have an empty branch above them. -/
inductive Piles (gap : Rat) (items : List (Track Rat)) : Bool → Rat → Track Rat → Prop where
  | stack {extent} : Piles gap items false 0 (.stack extent gap items)
  | choice {extent optional} : Piles gap items optional 2 (.choice extent gap optional items)

namespace Extent

/-- Whether the first of several extents takes any height. -/
def FirstCounts : List (Extent Rat) → Prop
  | first :: _ :: _ => 0 < first.above + first.below
  | _ => True

/-- Whether an extent has room for parts below each other, which hang from an edge that is some way
below its line, and for a width beside them. -/
structure Encloses (gap beside drop : Rat) (parts : List (Extent Rat)) (whole : Extent Rat) :
    Prop where
  wide : ∀ part ∈ parts, part.width + beside ≤ whole.width
  top : -whole.above ≤ drop
  bottom : drop + column gap parts ≤ whole.below + gap

section Extents

variable {gap : Rat} {first : Extent Rat} {parts : List (Extent Rat)}

/-- A stack whose first diagram counts encloses its diagrams. -/
theorem encloses_stackExtent (gaps : 0 ≤ gap) (upright : ∀ part ∈ first :: parts, part.Upright)
    (counts : FirstCounts (first :: parts)) :
    Encloses gap 0 (-first.above) (first :: parts) (Track.stackExtent gap (first :: parts)) := by
  have high : parts ≠ [] → 0 < first.above + first.below := by
    intro several
    obtain ⟨second, rest, rfl⟩ := List.exists_cons_of_ne_nil several
    exact counts
  obtain ⟨widths, above, below⟩ :=
    Track.stackExtent_eq gaps (List.forall_mem_cons.mp upright).2 high
  constructor
  · intro part member
    exact (add_zero part.width).le.trans (widths part member)
  · exact neg_le_neg above.ge
  · rw [below, column_cons]
    linarith

/-- A choice encloses its branches, if the first one counts or there is an empty one above it. -/
theorem encloses_choiceExtent {optional : Bool} (gaps : 0 ≤ gap)
    (upright : ∀ part ∈ first :: parts, part.Upright)
    (counts : optional = true ∨ FirstCounts (first :: parts)) :
    Encloses gap 2 (if optional then 1 / 2 else -first.above) (first :: parts)
      (Track.choiceExtent gap optional (first :: parts)) := by
  cases optional with
  | true =>
    obtain ⟨widths, above, below⟩ := Track.choiceExtent_true gaps upright
    refine ⟨widths, ?_, ?_⟩
    · rw [above, if_pos rfl]
      norm_num
    · rw [below, if_pos rfl]
      linarith
  | false =>
    obtain ⟨wide, top, bottom⟩ :=
      encloses_stackExtent gaps upright (counts.resolve_left Bool.false_ne_true)
    rw [Track.choiceExtent_false, if_neg Bool.false_ne_true]
    refine ⟨fun part member => ?_, top, bottom⟩
    linarith [wide part member]

end Extents

end Extent

/-- What holds of a pile that is measured and drawn from any point in any width. -/
structure KeepsItems (gap : Rat) (items : List (Track Rat)) (optional : Bool) (beside : Rat)
    (pile : Track Rat) : Prop where
  /-- All items are drawn, in order. -/
  drawn : ∀ nested x y width,
    ((Placed.mk x y width pile.measure).parts nested).map Placed.track = items.map Track.measure
  /-- None of them reaches into a later one. -/
  apart : ∀ nested x y width, ((Placed.mk x y width pile.measure).parts nested).Pairwise
    fun upper lower => upper.bottom ≤ lower.top
  /-- The pile is as wide as each item with the room beside it, if there is an empty branch above
  the items or the first one counts. -/
  wide : optional = true ∨ Extent.FirstCounts (items.map fun item => item.measure.extent) →
    ∀ item ∈ items, item.measure.extent.width + beside ≤ pile.measure.extent.width
  /-- Every item stays inside the measured height, if there is an empty branch above the items or
  the first one counts. -/
  inside : optional = true ∨ Extent.FirstCounts (items.map fun item => item.measure.extent) →
    ∀ nested x y width, ∀ slot ∈ (Placed.mk x y width pile.measure).parts nested,
      y - pile.measure.extent.above ≤ slot.top ∧ slot.bottom ≤ y + pile.measure.extent.below
  /-- The first of several items is forgotten if it takes no height and there is no empty branch:
  the pile measures what it would measure without it. -/
  forgets : optional = false → ∀ first second rest other, items = first :: second :: rest →
    first.measure.extent.above + first.measure.extent.below = 0 →
      Piles gap (second :: rest) false beside other → pile.measure.extent = other.measure.extent

namespace Piles

variable {gap beside : Rat} {items : List (Track Rat)} {optional : Bool} {pile : Track Rat}

/-- How far below the line of a pile its items hang from. -/
def drop (optional : Bool) (first : Track Rat) : Rat :=
  if optional then 1 / 2 else -first.extent.above

/-- A measured pile is a pile of the measured items. -/
theorem measure (piles : Piles gap items optional beside pile) :
    Piles gap (items.map Track.measure) optional beside pile.measure := by
  cases piles <;> rw [Track.measure, Track.measureAll_eq_map] <;> constructor

/-- The items of a pile hang below each other when it is drawn. -/
theorem hung {first : Track Rat} {rest : List (Track Rat)}
    (piles : Piles gap (first :: rest) optional beside pile) (nested : Bool) (x y width : Rat) :
    Hung gap (y + drop optional first) ((Placed.mk x y width pile).parts nested) := by
  have below : y + drop true first = y + arcRadius := by rw [arcRadius_rat, drop, if_pos rfl]
  have level : y + drop false first = Track.upperEdge y (first :: rest) :=
    (sub_eq_add_neg y first.extent.above).symm
  cases piles with
  | stack => exact level ▸ hung_stackSteps (first :: rest)
  | choice =>
    cases optional with
    | true =>
      rw [below]
      exact hung_branchSteps (y + arcRadius) (first :: rest)
    | false => exact level ▸ hung_choiceSteps (first :: rest)

/-- All items of a pile are drawn. -/
theorem tracks (piles : Piles gap items optional beside pile) (nested : Bool) (x y width : Rat) :
    ((Placed.mk x y width pile).parts nested).map Placed.track = items := by
  cases piles with
  | stack => exact tracks_stackSteps items
  | choice =>
    cases optional with
    | true => exact tracks_branchSteps items
    | false => exact tracks_choiceSteps items

/-- The tracks that are drawn in a pile of upright items are upright. -/
theorem upright_parts (piles : Piles gap items optional beside pile)
    (upright : ∀ item ∈ items, item.extent.Upright) (nested : Bool) (x y width : Rat) :
    ∀ slot ∈ (Placed.mk x y width pile).parts nested, slot.track.extent.Upright := by
  intro slot member
  refine upright slot.track ?_
  rw [← piles.tracks nested x y width]
  exact List.mem_map_of_mem member

/-- A measured pile has room for its items, if there is an empty branch above them or the first one
counts. -/
theorem encloses {first : Track Rat} {rest : List (Track Rat)}
    (piles : Piles gap (first :: rest) optional beside pile) (gaps : 0 ≤ gap)
    (upright : ∀ item ∈ first :: rest, item.measure.extent.Upright)
    (counts : optional = true ∨
      Extent.FirstCounts ((first :: rest).map fun item => item.measure.extent)) :
    Extent.Encloses gap beside (drop optional first.measure)
      ((first :: rest).map fun item => item.measure.extent) pile.measure.extent := by
  have parts : (Track.measureAll (first :: rest)).map Track.extent
      = (first :: rest).map fun item => item.measure.extent := by
    rw [Track.measureAll_eq_map, List.map_map]
    rfl
  have uprightParts := List.forall_mem_map.mpr upright
  cases piles with
  | stack =>
    rw [Track.measure, parts, Track.extent]
    exact Extent.encloses_stackExtent gaps uprightParts (counts.resolve_left Bool.false_ne_true)
  | choice =>
    rw [Track.measure, parts, Track.extent]
    exact Extent.encloses_choiceExtent gaps uprightParts counts

/-- A pile without an empty branch measures what it would measure without its first item, if that is
followed by others and takes no height. -/
theorem measure_of_flat {first second : Track Rat} {rest : List (Track Rat)} {other : Track Rat}
    (flat : first.measure.extent.above + first.measure.extent.below = 0)
    (piles : Piles gap (first :: second :: rest) false beside pile)
    (others : Piles gap (second :: rest) false beside other) :
    pile.measure.extent = other.measure.extent := by
  have shorter :
      Track.stackExtent gap ((Track.measureAll (first :: second :: rest)).map Track.extent)
        = Track.stackExtent gap ((Track.measureAll (second :: rest)).map Track.extent) :=
    Track.stackExtent_of_flat flat
  cases piles with
  | stack =>
    cases others with
    | stack => exact shorter
  | choice =>
    cases others with
    | choice =>
      rw [Track.measure, Track.measure, Track.extent, Track.extent, Track.choiceExtent_false,
        Track.choiceExtent_false, shorter]

end Piles

/-- Stacks and choices keep their items apart, and have room for them unless the first of several
takes no height and there is no empty branch above it. -/
theorem piles_keep_items {gap beside : Rat} {items : List (Track Rat)} {optional : Bool}
    {pile : Track Rat} (piles : Piles gap items optional beside pile) (gaps : 0 ≤ gap)
    (upright : ∀ item ∈ items, item.measure.extent.Upright) :
    KeepsItems gap items optional beside pile := by
  have measured := piles.measure
  have drawn := measured.tracks
  cases items with
  | nil =>
    have none (nested : Bool) (x y width : Rat) :
        (Placed.mk x y width pile.measure).parts nested = [] :=
      List.map_eq_nil_iff.mp (drawn nested x y width)
    constructor
    case drawn => exact drawn
    case apart => exact fun _ _ _ _ => none .. ▸ .nil
    case wide => exact fun _ => nofun
    case inside => exact fun _ _ _ _ _ => none .. ▸ nofun
    case forgets => exact fun _ _ _ _ _ => nofun
  | cons first rest =>
    have hung := measured.hung
    have standing := measured.upright_parts (List.forall_mem_map.mpr upright)
    constructor
    case drawn => exact drawn
    case apart =>
      exact fun nested x y width => (hung ..).pairwise gaps (standing nested x y width)
    case wide =>
      exact fun counts => List.forall_mem_map.mp (piles.encloses gaps upright counts).wide
    case inside =>
      intro counts nested x y width slot member
      obtain ⟨-, top, bottom⟩ := piles.encloses gaps upright counts
      obtain ⟨starts, ends⟩ := (hung ..).inside gaps (standing nested x y width) slot member
      have column : ((Placed.mk x y width pile.measure).parts nested).map
          (fun slot => slot.track.extent)
          = (first :: rest).map fun item => item.measure.extent := by
        rw [← Function.comp_def Track.extent, ← List.map_map, drawn, List.map_map]
        rfl
      rw [column] at ends
      constructor <;> linarith
    case forgets =>
      rintro rfl _ second others other ⟨⟩ flat shorter
      exact piles.measure_of_flat flat shorter

/-- A token and two terminals, the first of which may be left out. -/
def threeWays : List (Track Rat) :=
  [.boxOf .token "if", .optionally (.boxOf .terminal "name"), .boxOf .terminal "digit"]

/-- A choice between three tracks has room for them. -/
theorem three_ways_kept :
    (0 : Rat) ≤ choiceGap ∧ (∀ item ∈ threeWays, item.measure.extent.Upright) ∧
      KeepsItems choiceGap threeWays false 2 (.choiceOf threeWays) := by
  have gaps : (0 : Rat) ≤ choiceGap := by norm_num
  have box (shape : Shape) (text : String) :
      (Track.boxOf shape text : Track Rat).measure.extent.Upright :=
    (Track.measured_boxOf shape text).holdsBox.upright
  have optional (shape : Shape) (text : String) :
      (Track.optionally (.boxOf shape text) : Track Rat).measure.extent.Upright :=
    (Track.measured_boxOf shape text).optionally.holdsBox.upright
  have upright : ∀ item ∈ threeWays, item.measure.extent.Upright := by
    simp only [threeWays, List.forall_mem_cons, List.not_mem_nil, IsEmpty.forall_iff,
      implies_true, and_true]
    exact ⟨box .., optional .., box ..⟩
  exact ⟨gaps, upright, piles_keep_items .choice gaps upright⟩

/-- A word, or one of no alternatives. -/
def noneOrWord : Entries Json :=
  [("a", .obj [("choice", .arr [.obj [("choice", .arr [])], .obj [("token", .str "x")]])])]

/-- The rule of a word, or one of no alternatives. -/
def noneOrWordRule : Rule :=
  ⟨"a", .choice [.choice [], .token "x"], some false, true, none, none, [], []⟩

/-- What the rule chooses from. -/
def noneOrWordItems : List (Track Rat) :=
  [.choiceOf [], .boxOf .token "x"]

/-- The choice is too narrow for its first branch, which takes no height, and its second branch is
drawn below it. -/
theorem flat_branch_forgotten :
    validate noneOrWord false = .ok ⟨[noneOrWordRule]⟩ ∧
      .choiceOf noneOrWordItems ∈ (RuleSet.diagram ⟨[noneOrWordRule]⟩ none noneOrWordRule).1.walk ∧
      (0 : Rat) ≤ choiceGap ∧ (∀ item ∈ noneOrWordItems, item.measure.extent.Upright) ∧
      (∃ item ∈ noneOrWordItems,
        (Track.choiceOf noneOrWordItems).measure.extent.width < item.measure.extent.width + 2) ∧
      ∃ slot ∈ (Placed.mk 0 0 4 (Track.choiceOf noneOrWordItems).measure).parts false,
        0 + (Track.choiceOf noneOrWordItems).measure.extent.below < slot.bottom := by
  have diagram : (RuleSet.diagram ⟨[noneOrWordRule]⟩ none noneOrWordRule : Building.Built _).1
      = .ruleOf (Building.panel noneOrWordRule (.choiceOf noneOrWordItems)) := by cbv
  refine ⟨by cbv, ?_, by norm_num, ?_, ?_, ?_⟩
  · rw [diagram]
    exact .tail _ (.tail _ (.head _))
  · simp only [noneOrWordItems, List.forall_mem_cons, List.not_mem_nil, IsEmpty.forall_iff,
      implies_true, and_true]
    constructor <;> constructor <;> decide +kernel
  · exact ⟨.choiceOf [], .head _, by decide +kernel⟩
  · have outside : ((Placed.mk 0 0 4 (Track.choiceOf noneOrWordItems).measure).parts false).any
        (fun slot => decide (0 + (Track.choiceOf noneOrWordItems).measure.extent.below
          < slot.bottom)) = true := by decide +kernel
    simpa only [List.any_eq_true, decide_eq_true_eq] using outside

end GrammarView
