import GrammarView.Diagram.Theme

/-!
# Figures

The lines, areas and texts that a drawing consists of, in units of the grid and painted by what
they are for.
-/

namespace GrammarView

/-- The directions of an arc: the side it comes from and the side it leaves to, seen from its
start. Opposite sides make half a circle, neighbouring ones a quarter. -/
inductive Turn where
  | wn
  | we
  | ws
  | en
  | ew
  | es
  | ne
  | se
  deriving DecidableEq, Repr

namespace Turn

/-- The direction of a name. -/
def ofName? : String → Option Turn
  | "wn" => some .wn
  | "we" => some .we
  | "ws" => some .ws
  | "en" => some .en
  | "ew" => some .ew
  | "es" => some .es
  | "ne" => some .ne
  | "se" => some .se
  | _ => none

/-- Whether an arc is drawn clockwise. -/
def isClockwise : Turn → Bool
  | .ws | .en | .se => false
  | _ => true

/-- Where an arc ends, in radii from its start. -/
def offset {α : Type} [Scalar α] : Turn → α × α
  | .wn => (-1.0, -1.0)
  | .we => (0.0, -2.0)
  | .ws => (-1.0, 1.0)
  | .en => (1.0, -1.0)
  | .ew => (0.0, 2.0)
  | .es => (1.0, 1.0)
  | .ne => (1.0, -1.0)
  | .se => (1.0, 1.0)

end Turn

/-- A figure of a drawing. -/
inductive Figure (α : Type) where
  /-- A piece of track. -/
  | line (x0 y0 x1 y1 : α)
  /-- A circle on a track. -/
  | circle (x y radius : α)
  /-- A rectangle. One without outline has no stroke, one without corner has sharp corners. -/
  | rectangle (x y width height : α) (fill : Paint) (outline : Option Paint) (corner : Option α)
  /-- A polygon with an outline. -/
  | polygon (points : List (α × α)) (fill outline : Paint)
  /-- An arc of track from its start in a direction. -/
  | arc (x y radius : α) (turn : Turn)
  /-- A text with further attributes for its style. -/
  | text (x y : α) (content : String) (size : α) (style : Entries String) (fill : Paint)

namespace Figure

/-- Where an arc ends. -/
def arcEnd {α : Type} [Scalar α] (x y radius : α) (turn : Turn) : α × α :=
  let offset : α × α := turn.offset
  (x + offset.1 * radius, y + offset.2 * radius)

/-- A rectangle with rounded corners and no outline. -/
def rounded {α : Type} (x y width height radius : α) (fill : Paint) : Figure α :=
  .rectangle x y width height fill none (some radius)

/-- A text whose style is given by words in which an underscore stands for a hyphen. -/
def styledText {α : Type} (x y : α) (content : String) (size : α) (style : Entries String)
    (fill : Paint) : Figure α :=
  let hyphenated (key : String) : String := key.map fun c => if c = '_' then '-' else c
  .text x y content size (style.map fun (key, value) => (hyphenated key, value)) fill

end Figure

end GrammarView
