import GrammarView.Diagram.Drawing
import GrammarView.Markup

/-!
# Figures as elements

Writes the figures of a drawing as elements of a vector graphic, in the colours of a theme, and
puts a frame around them. The frame either shows the whole drawing at the size the page gives it,
or scales it by a fixed factor.
-/

namespace GrammarView

open Decimal

/-- Numbers with blanks between them. -/
def numbers (values : List Float) : String :=
  " ".intercalate (values.map number)

namespace Turn

/-- The path of an arc. -/
def path (x y radius : Float) (turn : Turn) : String :=
  let stop := Figure.arcEnd x y radius turn
  let flags := if turn.isClockwise then "0 0 1" else "0 0 0"
  "M " ++ numbers [x, y] ++ " A " ++ numbers [radius, radius] ++ " " ++ flags ++ " "
    ++ numbers [stop.1, stop.2]

end Turn

namespace Figure

/-- The attributes of a line that is drawn on a track. -/
def trackStroke (theme : Theme) : Except MissingHue (Entries String) := do
  let colour ← theme.paint (.stroke "track")
  return [("stroke", colour), ("stroke-width", number Grid.strokeWidth)]

/-- The attributes of a line with square ends and no area. -/
def openEnds : Entries String :=
  [("stroke-linecap", "square"), ("fill", "none")]

/-- The attributes of an outline. -/
def outlineStroke (theme : Theme) : Option Paint → Except MissingHue (Entries String)
  | none => .ok [("stroke", "none")]
  | some paint => do
    let colour ← theme.paint paint
    return [("stroke", colour), ("stroke-width", number Grid.strokeWidth)]

/-- The attributes of rounded corners. -/
def cornerRadius : Option Float → Entries String
  | none => []
  | some radius => [("rx", number radius), ("ry", number radius)]

/-- The element of a figure. -/
def markup (theme : Theme) : Figure Float → Except MissingHue Markup
  | .line x0 y0 x1 y1 => do
    let stroke ← trackStroke theme
    return .element "line"
      ([("x1", number x0), ("y1", number y0), ("x2", number x1), ("y2", number y1)]
        ++ stroke ++ openEnds) []
  | .circle x y radius => do
    let stroke ← trackStroke theme
    return .element "ellipse"
      ([("cx", number x), ("cy", number y), ("rx", number radius), ("ry", number radius)]
        ++ stroke ++ [("fill", "none")]) []
  | .rectangle x y width height fill outline corner => do
    let area ← theme.paint fill
    let stroke ← outlineStroke theme outline
    return .element "rect"
      ([("x", number x), ("y", number y), ("width", number width), ("height", number height),
          ("fill", area)]
        ++ stroke ++ cornerRadius corner) []
  | .polygon points fill outline => do
    let area ← theme.paint fill
    let stroke ← outlineStroke theme (some outline)
    return .element "polygon"
      ([("points", numbers (points.flatMap fun (x, y) => [x, y])), ("fill", area)] ++ stroke) []
  | .arc x y radius turn => do
    let stroke ← trackStroke theme
    return .element "path" ([("d", turn.path x y radius)] ++ stroke ++ openEnds) []
  | .text x y content size style fill => do
    let colour ← theme.paint fill
    let basic : Entries String :=
      [("x", number x), ("y", number y), ("font-family", "monospace"),
        ("font-size", number size)]
    let styled := style.foldl (fun attributes (key, value) => attributes.insert key value) basic
    return .element "text" (styled.insert "fill" colour) [.text content]

/-- The elements of figures, in order; the first hue that is missing stops it. -/
def markupAll (theme : Theme) (figures : List (Figure Float)) :
    Except MissingHue (List Markup) :=
  figures.mapM (markup theme)

end Figure

/-- The name space of vector graphics. -/
def svgNamespace : String :=
  "http://www.w3.org/2000/svg"

/-- A vector graphic around a drawing of a given size. A scale other than zero fixes the size of
the graphic, at one and a fifth pixels a unit and scale; without one the graphic takes the size
of its place. -/
def frame (content : List Markup) (width height : Float) (scale : Option Float) : Markup :=
  let fixed := scale.filter fun scale => !Scalar.isZero scale
  let named := [("xmlns", svgNamespace), ("version", "1.1")]
  match fixed with
  | some scale =>
    let scale := scale * 1.2
    .element "svg" (named ++ [("width", number (width * scale)), ("height", number (height * scale))])
      [.element "g" [("transform", "scale(" ++ number scale ++ ")")] content]
  | none =>
    .element "svg" (named ++ [("viewBox", "0 0 " ++ numbers [width, height])]) content

end GrammarView
