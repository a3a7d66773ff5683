import GrammarView.Diagram.Track

/-!
# Measuring

Gives every track its extent, from the extents of the tracks inside it. Each kind of track has
its own rule, and the rules are applied from the leaves upwards.
-/

namespace GrammarView.Track

variable {α : Type} [Scalar α]

open Grid

/-- The extent of a leaf: a single line, unless it has been given more. -/
def leafExtent (extent : Extent α) : Extent α :=
  ⟨extent.width, Scalar.orElse extent.above arcRadius, Scalar.orElse extent.below arcRadius⟩

/-- Appends a part to a sequence. -/
def appendExtent (gap : α) (whole part : Extent α) : Extent α :=
  ⟨whole.width + (gap + part.width), Scalar.greater whole.above part.above,
    Scalar.greater whole.below part.below⟩

/-- The extent of tracks one after the other. -/
def sequenceExtent (gap : α) : List (Extent α) → Extent α
  | [] => unmeasured
  | first :: rest => rest.foldl (appendExtent gap) first

/-- What is known of a pile of tracks while it grows: its width, how far it reaches above the
line it is entered on, and its whole height. -/
structure Pile (α : Type) where
  width : α
  above : α
  height : α

/-- Puts a track under a pile. Under a pile without height it becomes the first one. -/
def Pile.add (gap : α) (pile : Pile α) (item : Extent α) : Pile α :=
  if Scalar.isZero pile.height then ⟨item.width, item.above, item.above + item.below⟩
  else
    ⟨Scalar.greater pile.width item.width, pile.above,
      pile.height + (item.above + item.below + gap)⟩

/-- The extent of a pile. -/
def Pile.extent (pile : Pile α) : Extent α :=
  ⟨pile.width, pile.above, pile.height - pile.above⟩

/-- The pile before its first track; an empty branch has a line of its own. -/
def Pile.start (optional : Bool) : Pile α :=
  if optional then ⟨0.0, arcRadius, 2.0 * arcRadius⟩ else ⟨0.0, 0.0, 0.0⟩

/-- The extent of diagrams below each other. -/
def stackExtent (gap : α) (items : List (Extent α)) : Extent α :=
  (items.foldl (Pile.add gap) (Pile.start false)).extent

/-- The extent of tracks to choose from, which has room for two arcs at either side. -/
def choiceExtent (gap : α) (optional : Bool) (items : List (Extent α)) : Extent α :=
  let pile := (items.foldl (Pile.add gap) (Pile.start optional)).extent
  ⟨pile.width + 4.0 * arcRadius, pile.above, pile.below⟩

/-- The extent of a track that may be passed by. -/
def zeroOrOneExtent (item : Extent α) : Extent α :=
  ⟨item.width + 4.0 * arcRadius, arcRadius, item.above + item.below + arcRadius⟩

/-- The extent of a track on the way back. -/
def zeroOrMoreExtent (item : Extent α) : Extent α :=
  ⟨item.width + 2.0 * arcRadius, item.above + item.below + arcRadius, arcRadius⟩

/-- The extent of a track with a way back. -/
def oneOrMoreExtent (item : Extent α) : Extent α :=
  ⟨item.width + 2.0 * arcRadius, item.above + 1.5 * arcRadius, item.below⟩

/-- The extent of a track with a separator on the way back. -/
def listExtent (item separator : Extent α) : Extent α :=
  ⟨Scalar.greater item.width separator.width + 2.0 * arcRadius,
    separator.above + separator.below + item.above, item.below⟩

/-- The extent of a named panel. -/
def definitionExtent (left right : α) (item : Extent α) : Extent α :=
  ⟨item.width + left + right, item.above + definitionBanner, item.below + definitionFooter⟩

/-- The extent of a whole diagram. -/
def ruleExtent (stub : α) (item : Extent α) : Extent α :=
  ⟨item.width + stub * 2.0, item.above, item.below⟩

mutual

/-- The track with all extents measured. -/
def measure : Track α → Track α
  | .box extent shape text => .box (leafExtent extent) shape text
  | .sequence _ gap items =>
    let items := measureAll items
    .sequence (sequenceExtent gap (items.map Track.extent)) gap items
  | .choice _ gap optional items =>
    let items := measureAll items
    .choice (choiceExtent gap optional (items.map Track.extent)) gap optional items
  | .stack _ gap items =>
    let items := measureAll items
    .stack (stackExtent gap (items.map Track.extent)) gap items
  | .zeroOrOne _ item =>
    let item := measure item
    .zeroOrOne (zeroOrOneExtent item.extent) item
  | .zeroOrMore _ item =>
    let item := measure item
    .zeroOrMore (zeroOrMoreExtent item.extent) item
  | .oneOrMore _ item =>
    let item := measure item
    .oneOrMore (oneOrMoreExtent item.extent) item
  | .list _ item separator =>
    let item := measure item
    let separator := measure separator
    .list (listExtent item.extent separator.extent) item separator
  | .definition _ name left right item =>
    let item := measure item
    .definition (definitionExtent left right item.extent) name left right item
  | .rule _ stub item =>
    let item := measure item
    .rule (ruleExtent stub item.extent) stub item
  | .unknown extent => .unknown (leafExtent extent)

/-- Several tracks with all extents measured. -/
def measureAll : List (Track α) → List (Track α)
  | [] => []
  | item :: rest => measure item :: measureAll rest

end

end GrammarView.Track
