import GrammarView.Diagram.Grid
import GrammarView.Notice

/-!
# Tracks

The tree of a railroad diagram. Every track is entered at its left end and left at its right end
on one horizontal line; its extent says how wide it is and how far it reaches above and below
that line.
-/

namespace GrammarView

/-- The space that a track takes. -/
structure Extent (α : Type) where
  width : α
  above : α
  below : α
  deriving Repr

/-- The kinds of boxes. -/
inductive Shape where
  | rule
  | token
  | terminal
  | unknown
  deriving DecidableEq, Repr

/-- The name of a kind of boxes, which is also the category of its colour. -/
def Shape.name : Shape → String
  | .rule => "rule"
  | .token => "token"
  | .terminal => "terminal"
  | .unknown => "unknown"

/-- A track with its extent. -/
inductive Track (α : Type) where
  /-- A box with a text. -/
  | box (extent : Extent α) (shape : Shape) (text : String)
  /-- Tracks one after the other. -/
  | sequence (extent : Extent α) (gap : α) (items : List (Track α))
  /-- Tracks to choose from, if `optional` holds with an empty one above them. -/
  | choice (extent : Extent α) (gap : α) (optional : Bool) (items : List (Track α))
  /-- Diagrams below each other. -/
  | stack (extent : Extent α) (gap : α) (items : List (Track α))
  /-- A track that may be passed by. -/
  | zeroOrOne (extent : Extent α) (item : Track α)
  /-- A track on the way back, so that it is passed any number of times. -/
  | zeroOrMore (extent : Extent α) (item : Track α)
  /-- A track with a way back over it. -/
  | oneOrMore (extent : Extent α) (item : Track α)
  /-- A track with a separator on the way back over it. -/
  | list (extent : Extent α) (item separator : Track α)
  /-- A named panel around a track. -/
  | definition (extent : Extent α) (name : String) (left right : α) (item : Track α)
  /-- A whole diagram, a track with stubs and caps at its ends. -/
  | rule (extent : Extent α) (stub : α) (item : Track α)
  /-- A track of no known kind. -/
  | unknown (extent : Extent α)

namespace Track

variable {α : Type}

/-- The extent of a track. -/
def extent : Track α → Extent α
  | .box extent _ _ => extent
  | .sequence extent _ _ => extent
  | .choice extent _ _ _ => extent
  | .stack extent _ _ => extent
  | .zeroOrOne extent _ => extent
  | .zeroOrMore extent _ => extent
  | .oneOrMore extent _ => extent
  | .list extent _ _ => extent
  | .definition extent _ _ _ _ => extent
  | .rule extent _ _ => extent
  | .unknown extent => extent

/-- The track with another extent. -/
def withExtent (extent : Extent α) : Track α → Track α
  | .box _ shape text => .box extent shape text
  | .sequence _ gap items => .sequence extent gap items
  | .choice _ gap optional items => .choice extent gap optional items
  | .stack _ gap items => .stack extent gap items
  | .zeroOrOne _ item => .zeroOrOne extent item
  | .zeroOrMore _ item => .zeroOrMore extent item
  | .oneOrMore _ item => .oneOrMore extent item
  | .list _ item separator => .list extent item separator
  | .definition _ name left right item => .definition extent name left right item
  | .rule _ stub item => .rule extent stub item
  | .unknown _ => .unknown extent

/-- The tracks directly inside a track; an item comes before its separator. -/
def children : Track α → List (Track α)
  | .box _ _ _ => []
  | .sequence _ _ items => items
  | .choice _ _ _ items => items
  | .stack _ _ items => items
  | .zeroOrOne _ item => [item]
  | .zeroOrMore _ item => [item]
  | .oneOrMore _ item => [item]
  | .list _ item separator => [item, separator]
  | .definition _ _ _ _ item => [item]
  | .rule _ _ item => [item]
  | .unknown _ => []

mutual

/-- A track and all tracks inside it, each before those inside it. -/
def walk : Track α → List (Track α)
  | .box extent shape text => [.box extent shape text]
  | .sequence extent gap items => .sequence extent gap items :: walkAll items
  | .choice extent gap optional items => .choice extent gap optional items :: walkAll items
  | .stack extent gap items => .stack extent gap items :: walkAll items
  | .zeroOrOne extent item => .zeroOrOne extent item :: walk item
  | .zeroOrMore extent item => .zeroOrMore extent item :: walk item
  | .oneOrMore extent item => .oneOrMore extent item :: walk item
  | .list extent item separator => .list extent item separator :: (walk item ++ walk separator)
  | .definition extent name left right item =>
    .definition extent name left right item :: walk item
  | .rule extent stub item => .rule extent stub item :: walk item
  | .unknown extent => [.unknown extent]

/-- Several tracks and all tracks inside them. -/
def walkAll : List (Track α) → List (Track α)
  | [] => []
  | item :: rest => walk item ++ walkAll rest

end

/-- Whether a track is of no known kind. -/
def isUnknown : Track α → Bool
  | .unknown _ => true
  | _ => false

/-- The reports that drawing a track gives rise to. -/
def notices (track : Track α) : List Notice :=
  (track.walk.filter isUnknown).map fun _ => .unknownTrack

section Construction

variable [Scalar α]

/-- The extent of a track that has not been measured. -/
def unmeasured : Extent α :=
  ⟨0.0, 0.0, 0.0⟩

/-- A box around a text. -/
def boxOf (shape : Shape) (text : String) : Track α :=
  .box ⟨Grid.boxWidth text, 0.0, 0.0⟩ shape text

/-- Tracks one after the other with the usual gap. -/
def sequenceOf (items : List (Track α)) : Track α :=
  .sequence unmeasured Grid.sequenceGap items

/-- Tracks to choose from with the usual gap. -/
def choiceOf (items : List (Track α)) : Track α :=
  .choice unmeasured Grid.choiceGap false items

/-- Diagrams below each other with the usual gap. -/
def stackOf (items : List (Track α)) : Track α :=
  .stack unmeasured Grid.stackGap items

/-- A whole diagram with the usual stubs. -/
def ruleOf (item : Track α) : Track α :=
  .rule unmeasured Grid.ruleStub item

/-- A track that may be left out. A choice gets an empty branch for it. -/
def optionally : Track α → Track α
  | .choice extent gap _ items => .choice extent gap true items
  | item => .zeroOrOne unmeasured item

/-- A track at least once. -/
def repeatedly (item : Track α) : Track α :=
  .oneOrMore unmeasured item

/-- A track on the way back, which is read from right to left, so a sequence is turned round. -/
def onReturn : Track α → Track α
  | .sequence extent gap items => .zeroOrMore unmeasured (.sequence extent gap items.reverse)
  | item => .zeroOrMore unmeasured item

/-- A track any number of times. What is better read from left to right is passed on the way
there, with a way past it and a way back. -/
def anyNumberOf : Track α → Track α
  | .sequence extent gap items => repeatedly (optionally (.sequence extent gap items))
  | .definition extent name left right item =>
    repeatedly (optionally (.definition extent name left right item))
  | .choice extent gap optional items =>
    repeatedly (optionally (.choice extent gap optional items))
  | item => onReturn item

end Construction

end Track

end GrammarView
