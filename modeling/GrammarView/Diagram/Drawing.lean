import GrammarView.Diagram.Figure
import GrammarView.Diagram.Measure

/-!
# Drawing

Draws a measured track from the point where it is entered. A track is given a width, which may be
more than its own where a wider neighbour stretches it, and passes widths on to the tracks inside
it. Every figure is named by its paint, so the choice of colours comes afterwards.
-/

namespace GrammarView

variable {α : Type} [Scalar α]

open Grid

/-- The outline of a box whose upper left corner is given: a rounded box for a rule, a pointed one
for a terminal, a sharp one for a token, and a warning for anything else. -/
def boxOutline (x y width height : α) : Shape → Figure α
  | .rule => .rectangle x y width height (.fill "rule") (some (.stroke "rule")) (some 0.4)
  | .token => .rectangle x y width height (.fill "token") (some (.stroke "token")) none
  | .terminal =>
    let point := height / 3.0
    .polygon
      [(x, y + height * 0.5), (x + point, y), (x + width - point, y),
        (x + width, y + height * 0.5), (x + width - point, y + height), (x + point, y + height)]
      (.fill "terminal") (.stroke "terminal")
  | .unknown => .rectangle x y width height (.given "white") (some (.given "red")) none

/-- A box with its text, centred on the track that enters it. -/
def drawBox (x y width height : α) (text : String) (shape : Shape) : List (Figure α) :=
  let y := y - height * 0.5
  let size := height * fontRatio
  let slant := if shape = .token then "normal" else "italic"
  [boxOutline x y width height shape,
    .text (x + width * 0.5) (y + size) text size
      [("font-weight", "bold"), ("font-style", slant), ("text-anchor", "middle")] (.label shape)]

/-- The way back from (x1, y0) to (x0, y1), with a straight line at a height if one is given.
Between tracks that are closer than two radii the way is a half circle at either end, otherwise
two quarters and a riser. -/
def drawLoop (x0 y0 x1 y1 radius : α) (line : Option α) : List (Figure α) :=
  let ends :=
    if Scalar.isLess (y1 - radius) (y0 + radius + 1e-8) then
      [.arc x0 y1 radius .we, .arc x1 y0 radius .ew]
    else
      [.arc x0 y1 radius .wn, .line (x0 - radius) (y1 - radius) (x0 - radius) (y0 + radius),
        .arc (x0 - radius) (y0 + radius) radius .ne, .arc x1 y0 radius .es,
        .line (x1 + radius) (y0 + radius) (x1 + radius) (y1 - radius), .arc x1 y1 radius .en]
  match line with
  | some height => ends ++ [.line x0 height x1 height]
  | none => ends

/-- The panel of a definition entered at a point: its tab, its frame, the panel in it, its name,
and the track that runs across. -/
def drawPanel (nested : Bool) (extent : Extent α) (name : String) (x y : α) : List (Figure α) :=
  let top := y - extent.above
  let height := extent.above + extent.below
  let inset : α := 0.25
  let frameTop := top + 1.5
  let frameHeight := height - 1.5
  [.rounded x (top + 0.75) (tabWidth name) 1.5 0.25 .frame,
    .rounded x frameTop extent.width frameHeight 0.5 .frame,
    .rounded (x + inset) (frameTop + inset) (extent.width - 2.0 * inset)
      (frameHeight - 2.0 * inset) inset (.panel nested),
    .text (x + 0.2) (top + 1.4) name 0.65 [("font-style", "italic"), ("text-anchor", "left")]
      (.stroke "definition"),
    .line x y (x + extent.width) y]

/-- The tracks around a track that may be passed by: the line below, four arcs, and risers where
the arcs do not meet. -/
def drawBypass (item : Extent α) (x y width : α) : List (Figure α) :=
  let r : α := arcRadius
  let lower := y + item.above + r
  [.line (x + 2.0 * r) lower (x + width - 2.0 * r) lower, .arc x y r .es,
    .arc (x + r) (y + item.above) r .se, .arc (x + item.width + 2.0 * r) lower r .en,
    .arc (x + item.width + 3.0 * r) (y + r) r .ne]
  ++ if Scalar.isSame item.above r then []
    else
      [.line (x + r) (y + r) (x + r) (y + item.above),
        .line (x + item.width + 3.0 * r) (y + r) (x + item.width + 3.0 * r) (y + item.above)]

/-- The tracks that lead to a branch of a choice and back, from the joint at which the branch
above it leaves them. -/
def drawBranch (joint x y width : α) : List (Figure α) :=
  let r : α := arcRadius
  [.line (x + r) joint (x + r) (y - r), .arc (x + r) (y - r) r .se,
    .arc (x + width - 2.0 * r) y r .en,
    .line (x + width - r) joint (x + width - r) (y - r),
    .line (x + 2.0 * r) y (x + width - 2.0 * r) y]

namespace Track

/-- The upper edge of diagrams below each other, the first of which is entered at a height. -/
def upperEdge (y : α) : List (Track α) → α
  | [] => y
  | first :: _ => y - first.extent.above

mutual

/-- Draws a track that is entered at a point, in a given width. `nested` chooses the panels of a
drawing of nested definitions. -/
def draw (nested : Bool) (x y width : α) : Track α → List (Figure α)
  | .box extent shape text => drawBox x y extent.width boxHeight text shape
  | .sequence _ gap items => drawSequence nested gap x y items
  | .choice _ gap optional items =>
    .arc x y arcRadius .es :: .arc (x + width) y arcRadius .ws ::
      if optional then drawBranches nested gap x width (y + arcRadius) (y + arcRadius) items
      else drawChoice nested gap x y width items
  | .stack _ gap items => drawStack nested gap x width (upperEdge y items) items
  | .zeroOrOne _ item =>
    drawBypass item.extent x y width
      ++ draw nested (x + 2.0 * arcRadius) (y + item.extent.above + arcRadius) item.extent.width
        item
  | .zeroOrMore _ item =>
    let loop := y - item.extent.below - arcRadius
    drawLoop (x + arcRadius) loop (x + width - arcRadius) y arcRadius (some loop)
      ++ draw nested (x + arcRadius) loop item.extent.width item
  | .oneOrMore _ item =>
    let loop := y - item.extent.above - arcRadius
    drawLoop (x + arcRadius) loop (x + width - arcRadius) y arcRadius (some loop)
      ++ draw nested (x + arcRadius) y item.extent.width item
  | .list _ item separator =>
    let loop := y - item.extent.above - arcRadius
    drawLoop (x + arcRadius) loop (x + width - arcRadius) y arcRadius (some loop)
      ++ draw nested (x + (width - separator.extent.width) / 2.0) loop separator.extent.width
        separator
      ++ draw nested (x + (width - item.extent.width) / 2.0) y (width - 2.0 * arcRadius) item
  | .definition extent name left right item =>
    drawPanel nested extent name x y
      ++ draw nested (x + left) y (extent.width - left - right) item
  | .rule extent stub item =>
    .line (x + capRadius) y (x + extent.width - capRadius) y
      :: draw nested (x + stub) y (extent.width - stub * 2.0) item
      ++ [.circle x y capRadius, .circle (x + extent.width) y capRadius]
  | .unknown _ => drawBox x y (Scalar.orElse width 1.0) boxHeight "unknown" .unknown

/-- Draws tracks one after the other, each in its own width. -/
def drawSequence (nested : Bool) (gap x y : α) : List (Track α) → List (Figure α)
  | [] => []
  | item :: rest =>
    draw nested x y item.extent.width item
      ++ drawSequence nested gap (x + (item.extent.width + gap)) y rest

/-- Draws diagrams below each other, from the upper edge of the first one, each in the whole
width. -/
def drawStack (nested : Bool) (gap x width edge : α) : List (Track α) → List (Figure α)
  | [] => []
  | item :: rest =>
    let y := edge + item.extent.above
    draw nested x y width item
      ++ drawStack nested gap x width (y + (item.extent.below + gap)) rest

/-- Draws the branches of a choice without an empty one. The first branch runs on the line on
which the choice is entered. -/
def drawChoice (nested : Bool) (gap x y width : α) : List (Track α) → List (Figure α)
  | [] => []
  | item :: rest =>
    draw nested (x + 2.0 * arcRadius) y (width - 4.0 * arcRadius) item
      ++ drawBranches nested gap x width (y + arcRadius) (y + (item.extent.below + gap)) rest

/-- Draws branches that hang from a joint, from the upper edge of the first one. -/
def drawBranches (nested : Bool) (gap x width joint edge : α) : List (Track α) → List (Figure α)
  | [] => []
  | item :: rest =>
    let y := edge + item.extent.above
    drawBranch joint x y width
      ++ draw nested (x + 2.0 * arcRadius) y (width - 4.0 * arcRadius) item
      ++ drawBranches nested gap x width (y - arcRadius) (y + (item.extent.below + gap)) rest

end

end Track

end GrammarView
