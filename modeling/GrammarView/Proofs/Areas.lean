import GrammarView.Diagram.Drawing
import GrammarView.Proofs.Extents

/-!
# Areas

Where the figures of a drawing lie, in exact numbers. A track that is drawn from a point stays in
the area that its extent announces, if there is room in every panel for its name and in every list
for its parts. Measuring does not see to that: it leaves the name of a panel out, reserves height
for a separator above the loop that carries it though the separator reaches below the loop as well,
and knows nothing of the widths that are passed on while drawing.

Every kind of track has its own figures and its own places for the tracks inside it. What the
figures stay in is said for each kind, and the drawing of a track is put together from that.
-/

namespace GrammarView

open Grid

/-- A part of the plane between two sides and between two heights, which grow downwards. -/
structure Area where
  left : Rat
  right : Rat
  top : Rat
  bottom : Rat

/-- The points between which a figure lies: the ends of a line and of an arc, the points of a
polygon, and two corners of a rectangle, or of the square around a circle. Texts are left out. -/
def Figure.outermost : Figure Rat → List (Rat × Rat)
  | .line x0 y0 x1 y1 => [(x0, y0), (x1, y1)]
  | .circle x y radius => [(x - radius, y - radius), (x + radius, y + radius)]
  | .rectangle x y width height _ _ _ => [(x, y), (x + width, y + height)]
  | .polygon points _ _ => points
  | .arc x y radius turn => [(x, y), arcEnd x y radius turn]
  | .text _ _ _ _ _ _ => []

namespace Area

/-- Whether a point lies in an area. -/
structure Contains (area : Area) (point : Rat × Rat) : Prop where
  left : area.left ≤ point.1
  right : point.1 ≤ area.right
  top : area.top ≤ point.2
  bottom : point.2 ≤ area.bottom

/-- A point lies in an area when it lies between the sides and between the heights. -/
theorem contains_iff {area : Area} {x y : Rat} : area.Contains (x, y) ↔
    (area.left ≤ x ∧ x ≤ area.right) ∧ area.top ≤ y ∧ y ≤ area.bottom :=
  ⟨fun contains => ⟨⟨contains.left, contains.right⟩, contains.top, contains.bottom⟩,
    fun ⟨⟨left, right⟩, top, bottom⟩ => ⟨left, right, top, bottom⟩⟩

/-- Whether figures lie in an area. -/
def Holds (area : Area) (figures : List (Figure Rat)) : Prop :=
  ∀ figure ∈ figures, ∀ point ∈ figure.outermost, area.Contains point

/-- Whether an area is a part of another one. -/
structure Within (inner outer : Area) : Prop where
  left : outer.left ≤ inner.left
  right : inner.right ≤ outer.right
  top : outer.top ≤ inner.top
  bottom : inner.bottom ≤ outer.bottom

variable {area inner outer : Area} {figure : Figure Rat} {figures rest : List (Figure Rat)}

/-- What lies in a part of an area lies in the area. -/
theorem Holds.mono (holds : inner.Holds figures) (within : inner.Within outer) :
    outer.Holds figures := fun figure member point outermost =>
  have contains := holds figure member point outermost
  ⟨within.left.trans contains.left, contains.right.trans within.right,
    within.top.trans contains.top, contains.bottom.trans within.bottom⟩

/-- Without figures there is nothing to hold. -/
theorem holds_nil : area.Holds [] :=
  List.forall_mem_nil _

/-- Figures lie in an area when the first one and the other ones do. -/
theorem holds_cons : area.Holds (figure :: rest) ↔
    (∀ point ∈ figure.outermost, area.Contains point) ∧ area.Holds rest :=
  List.forall_mem_cons

/-- Figures lie in an area when the first ones and the other ones do. -/
theorem holds_append : area.Holds (figures ++ rest) ↔ area.Holds figures ∧ area.Holds rest :=
  List.forall_mem_append

section Figures

variable {x0 y0 x1 y1 x y radius width height : Rat} {turn : Turn} {fill : Paint}

theorem holds_line : area.Holds (.line x0 y0 x1 y1 :: rest) ↔
    area.Contains (x0, y0) ∧ area.Contains (x1, y1) ∧ area.Holds rest := by
  simp [holds_cons, Figure.outermost, and_assoc]

theorem holds_arc : area.Holds (.arc x y radius turn :: rest) ↔
    area.Contains (x, y) ∧ area.Contains (Figure.arcEnd x y radius turn) ∧ area.Holds rest := by
  simp [holds_cons, Figure.outermost, and_assoc]

theorem holds_circle : area.Holds (.circle x y radius :: rest) ↔
    area.Contains (x - radius, y - radius) ∧ area.Contains (x + radius, y + radius) ∧
      area.Holds rest := by
  simp [holds_cons, Figure.outermost, and_assoc]

theorem holds_text {content : String} {size : Rat} {style : Entries String} :
    area.Holds (.text x y content size style fill :: rest) ↔ area.Holds rest := by
  simp [holds_cons, Figure.outermost]

theorem holds_rectangle {outline : Option Paint} {corner : Option Rat} :
    area.Holds (.rectangle x y width height fill outline corner :: rest) ↔
      area.Contains (x, y) ∧ area.Contains (x + width, y + height) ∧ area.Holds rest := by
  simp [holds_cons, Figure.outermost, and_assoc]

theorem holds_polygon {points : List (Rat × Rat)} {outline : Paint} :
    area.Holds (.polygon points fill outline :: rest) ↔
      (∀ point ∈ points, area.Contains point) ∧ area.Holds rest :=
  holds_cons

theorem holds_rounded : area.Holds (.rounded x y width height radius fill :: rest) ↔
    area.Contains (x, y) ∧ area.Contains (x + width, y + height) ∧ area.Holds rest := by
  simp [holds_cons, Figure.rounded, Figure.outermost, and_assoc]

end Figures

end Area

/-- Where an arc ends, in exact numbers. -/
theorem offset_rat (turn : Turn) : (turn.offset : Rat × Rat) = match turn with
    | .wn => (-1, -1)
    | .we => (0, -2)
    | .ws => (-1, 1)
    | .en | .ne => (1, -1)
    | .ew => (0, 2)
    | .es | .se => (1, 1) := by
  cases turn <;> norm_num [Turn.offset]

section Figures

variable {area : Area}

/-- A loop stays between its ends, with an arc at either side. -/
theorem drawLoop_holds {x0 y0 x1 y1 : Rat} (left : area.left + 1 / 2 ≤ x0) (across : x0 ≤ x1)
    (right : x1 + 1 / 2 ≤ area.right) (top : area.top ≤ y0) (high : y0 + 1 ≤ y1)
    (bottom : y1 ≤ area.bottom) : area.Holds (drawLoop x0 y0 x1 y1 (1 / 2) (some y0)) := by
  simp only [drawLoop]
  split <;>
  · simp only [List.cons_append, List.nil_append, Area.holds_arc, Area.holds_line, Figure.arcEnd,
      offset_rat, Area.holds_nil, Area.contains_iff, and_true]
    and_intros <;> linarith

/-- The tracks around a track that may be passed by stay in the width, and between the line and the
height of the track with an arc. -/
theorem drawBypass_holds {item : Extent Rat} {x y width : Rat} (room : item.HoldsBox)
    (wide : item.width + 2 ≤ width) (left : area.left ≤ x) (right : x + width ≤ area.right)
    (top : area.top ≤ y) (bottom : y + item.above + item.below + 1 / 2 ≤ area.bottom) :
    area.Holds (drawBypass item x y width) := by
  obtain ⟨_, _, _⟩ := room
  simp only [drawBypass, arcRadius_rat, Area.holds_append]
  constructor
  · simp only [Area.holds_arc, Area.holds_line, Figure.arcEnd, offset_rat, Area.holds_nil,
      Area.contains_iff, and_true]
    and_intros <;> linarith
  · split
    · exact Area.holds_nil
    · simp only [Area.holds_line, Area.holds_nil, Area.contains_iff, and_true]
      and_intros <;> linarith

/-- The tracks that lead to a branch stay in the width and above the line of the branch. -/
theorem drawBranch_holds {joint x y width : Rat} (wide : 2 ≤ width) (left : area.left ≤ x)
    (right : x + width ≤ area.right) (hangs : area.top ≤ joint) (joins : joint ≤ area.bottom)
    (top : area.top + 1 / 2 ≤ y) (bottom : y ≤ area.bottom) :
    area.Holds (drawBranch joint x y width) := by
  simp only [drawBranch, arcRadius_rat, Area.holds_arc, Area.holds_line, Figure.arcEnd, offset_rat,
    Area.holds_nil, Area.contains_iff, and_true]
  and_intros <;> linarith

/-- The arcs at the ends of a choice stay in the width and no further below the line than an arc. -/
theorem ends_holds {x y width : Rat} {rest : List (Figure Rat)} (wide : 1 ≤ width)
    (left : area.left ≤ x) (right : x + width ≤ area.right) (top : area.top ≤ y)
    (bottom : y + 1 / 2 ≤ area.bottom) (others : area.Holds rest) :
    area.Holds (.arc x y (1 / 2) .es :: .arc (x + width) y (1 / 2) .ws :: rest) := by
  simp only [Area.holds_arc, Figure.arcEnd, offset_rat, Area.contains_iff]
  and_intros
  all_goals first | exact others | linarith

/-- A panel stays in the extent of its definition, if that is as wide as the tab with the name. -/
theorem drawPanel_holds {nested : Bool} {extent : Extent Rat} {name : String} {x y : Rat}
    (wide : 1 ≤ extent.width) (tab : tabWidth name ≤ extent.width)
    (banner : 9 / 4 ≤ extent.above) (footer : 0 ≤ extent.below) (left : area.left ≤ x)
    (right : x + extent.width ≤ area.right) (top : area.top ≤ y - extent.above)
    (bottom : y + extent.below ≤ area.bottom) :
    area.Holds (drawPanel nested extent name x y) := by
  have empty : (0 : Rat) ≤ tabWidth name := by
    rw [tabWidth_rat]
    positivity
  simp only [drawPanel, Area.holds_rounded, Area.holds_text, Area.holds_line, Area.holds_nil,
    Area.contains_iff, and_true]
  and_intros <;> linarith

/-- A box stays in its width and is no further from its line than an arc. -/
theorem drawBox_holds {x y width : Rat} {text : String} {shape : Shape} (wide : 1 ≤ width)
    (left : area.left ≤ x) (right : x + width ≤ area.right) (top : area.top ≤ y - 1 / 2)
    (bottom : y + 1 / 2 ≤ area.bottom) :
    area.Holds (drawBox x y width boxHeight text shape) := by
  cases shape with
  | terminal =>
    simp only [drawBox, boxOutline, boxHeight_rat, Area.holds_polygon, Area.holds_text,
      Area.holds_nil, Area.contains_iff, and_true, List.forall_mem_cons, List.not_mem_nil,
      IsEmpty.forall_iff, implies_true]
    and_intros <;> linarith
  | _ =>
    simp only [drawBox, boxOutline, boxHeight_rat, Area.holds_rectangle, Area.holds_text,
      Area.holds_nil, Area.contains_iff, and_true]
    and_intros <;> linarith

end Figures

namespace Track

section Draw

variable {nested : Bool} {x y width : Rat} {extent : Extent Rat} {item separator : Track Rat}
  {items : List (Track Rat)} {gap joint edge : Rat}

/-- A track that may be passed by is drawn below the line. -/
theorem draw_zeroOrOne : draw nested x y width (.zeroOrOne extent item)
    = drawBypass item.extent x y width
      ++ draw nested (x + 1) (y + item.extent.above + 1 / 2) item.extent.width item := by
  norm_num [draw]

/-- A track on the way back is drawn on a loop above the line. -/
theorem draw_zeroOrMore : draw nested x y width (.zeroOrMore extent item)
    = drawLoop (x + 1 / 2) (y - item.extent.below - 1 / 2) (x + width - 1 / 2) y (1 / 2)
        (some (y - item.extent.below - 1 / 2))
      ++ draw nested (x + 1 / 2) (y - item.extent.below - 1 / 2) item.extent.width item := by
  norm_num [draw]

/-- A track with a way back is drawn on the line, below the loop. -/
theorem draw_oneOrMore : draw nested x y width (.oneOrMore extent item)
    = drawLoop (x + 1 / 2) (y - item.extent.above - 1 / 2) (x + width - 1 / 2) y (1 / 2)
        (some (y - item.extent.above - 1 / 2))
      ++ draw nested (x + 1 / 2) y item.extent.width item := by
  norm_num [draw]

/-- The item of a list is drawn on the line and its separator on the loop, both in the middle. -/
theorem draw_list : draw nested x y width (.list extent item separator)
    = drawLoop (x + 1 / 2) (y - item.extent.above - 1 / 2) (x + width - 1 / 2) y (1 / 2)
        (some (y - item.extent.above - 1 / 2))
      ++ draw nested (x + (width - separator.extent.width) / 2) (y - item.extent.above - 1 / 2)
        separator.extent.width separator
      ++ draw nested (x + (width - item.extent.width) / 2) y (width - 1) item := by
  norm_num [draw]

/-- What is defined is drawn between the margins of its panel. -/
theorem draw_definition {name : String} {left right : Rat} :
    draw nested x y width (.definition extent name left right item)
      = drawPanel nested extent name x y
        ++ draw nested (x + left) y (extent.width - left - right) item :=
  rfl

/-- The branches of a choice are drawn between two arcs. -/
theorem draw_choice {optional : Bool} : draw nested x y width (.choice extent gap optional items)
    = .arc x y (1 / 2) .es :: .arc (x + width) y (1 / 2) .ws ::
      if optional then drawBranches nested gap x width (y + 1 / 2) (y + 1 / 2) items
      else drawChoice nested gap x y width items := by
  norm_num [draw]

/-- The first branch of a choice without an empty one is drawn on the line. -/
theorem drawChoice_cons : drawChoice nested gap x y width (item :: items)
    = draw nested (x + 1) y (width - 2) item
      ++ drawBranches nested gap x width (y + 1 / 2) (y + (item.extent.below + gap)) items := by
  norm_num [drawChoice]

/-- Every other branch hangs from the joint above it. -/
theorem drawBranches_cons : drawBranches nested gap x width joint edge (item :: items)
    = drawBranch joint x (edge + item.extent.above) width
      ++ draw nested (x + 1) (edge + item.extent.above) (width - 2) item
      ++ drawBranches nested gap x width (edge + item.extent.above - 1 / 2)
        (edge + item.extent.above + (item.extent.below + gap)) items := by
  norm_num [drawBranches]

/-- The parts of a sequence are drawn one after the other, with gaps. -/
theorem drawSequence_cons : drawSequence nested gap x y (item :: items)
    = draw nested x y item.extent.width item
      ++ drawSequence nested gap (x + (item.extent.width + gap)) y items :=
  rfl

end Draw

/-- Whether a track that is given more width than its own is drawn wider. -/
def stretches {α : Type} : Track α → Bool
  | .box _ _ _ | .sequence _ _ _ | .definition _ _ _ _ _ | .rule _ _ _ => false
  | _ => true

/-- The width that a track takes of the width that it is given. -/
def span (width : Rat) (track : Track Rat) : Rat :=
  if track.stretches then width else track.extent.width

/-- Whether there is room in a measured track that is given a width: in every panel for the tab with
its name, and in every list for the separator over the line of the item, and for the item in the
middle of the list, which goes with the width. -/
inductive HasRoom : Rat → Track Rat → Prop where
  | box {width extent shape text} : HasRoom width (.box extent shape text)
  | sequence {width extent gap items}
      (parts : ∀ item ∈ items, HasRoom item.extent.width item) :
      HasRoom width (.sequence extent gap items)
  | choice {width extent gap optional items} (parts : ∀ item ∈ items, HasRoom (width - 2) item) :
      HasRoom width (.choice extent gap optional items)
  | stack {width extent gap items} (parts : ∀ item ∈ items, HasRoom width item) :
      HasRoom width (.stack extent gap items)
  | zeroOrOne {width extent item} (part : HasRoom item.extent.width item) :
      HasRoom width (.zeroOrOne extent item)
  | zeroOrMore {width extent item} (part : HasRoom item.extent.width item) :
      HasRoom width (.zeroOrMore extent item)
  | oneOrMore {width extent item} (part : HasRoom item.extent.width item) :
      HasRoom width (.oneOrMore extent item)
  | list {width extent item separator}
      (loop : separator.extent.below ≤ item.extent.above + 1 / 2 + item.extent.below)
      (middle : item.stretches = true → width ≤ item.extent.width + 2)
      (onward : HasRoom (width - 1) item)
      (returning : HasRoom separator.extent.width separator) :
      HasRoom width (.list extent item separator)
  | definition {width extent name left right item} (tab : tabWidth name ≤ extent.width)
      (part : HasRoom (extent.width - left - right) item) :
      HasRoom width (.definition extent name left right item)
  | rule {width extent stub item} (part : HasRoom (extent.width - stub * 2) item) :
      HasRoom width (.rule extent stub item)

/-- The area of a track that is drawn from a point in a given width. -/
def area (x y width : Rat) (track : Track Rat) : Area :=
  ⟨x, x + track.span width, y - track.extent.above, y + track.extent.below⟩

/-- Whether a track is drawn in its area, from any point and in any width that it fits in and has
room in. -/
def StaysInside (nested : Bool) (track : Track Rat) : Prop :=
  ∀ x y width, track.HasRoom width → track.extent.width ≤ width →
    (track.area x y width).Holds (track.draw nested x y width)

/-- A track that is given a width in which it has room and stays inside its area. -/
structure Fits (nested : Bool) (width : Rat) (track : Track Rat) : Prop where
  stays : track.StaysInside nested
  room : track.HasRoom width
  width : track.extent.width ≤ width
  box : track.extent.HoldsBox

section Inside

variable {nested : Bool} {track : Track Rat} {items : List (Track Rat)} {x y width gap : Rat}
  {whole : Area}

/-- A track that fits takes no more than it is given. -/
theorem span_le (fits : track.extent.width ≤ width) : track.span width ≤ width := by
  unfold span
  split
  · exact le_refl _
  · exact fits

/-- A track that stretches takes all that it is given. -/
theorem span_of_stretches (stretches : track.stretches = true) : track.span width = width :=
  if_pos stretches

/-- A track that does not stretch takes its own width. -/
theorem span_of_rigid (rigid : track.stretches = false) : track.span width = track.extent.width :=
  if_neg (Bool.not_eq_true _ ▸ rigid)

/-- A track that fits is drawn in every area around its own. -/
theorem Fits.around (fits : track.Fits nested width) (left : whole.left ≤ x)
    (right : x + track.span width ≤ whole.right) (top : whole.top ≤ y - track.extent.above)
    (bottom : y + track.extent.below ≤ whole.bottom) :
    whole.Holds (track.draw nested x y width) :=
  (fits.stays x y width fits.room fits.width).mono ⟨left, right, top, bottom⟩

/-- A track that fits is drawn in every area with the width that it is given. -/
theorem Fits.within (fits : track.Fits nested width) (left : whole.left ≤ x)
    (right : x + width ≤ whole.right) (top : whole.top ≤ y - track.extent.above)
    (bottom : y + track.extent.below ≤ whole.bottom) :
    whole.Holds (track.draw nested x y width) :=
  fits.around left (by linarith [span_le fits.width]) top bottom

/-- Tracks that fit have room for boxes. -/
theorem Fits.boxes {widths : Track Rat → Rat}
    (fits : ∀ item ∈ items, item.Fits nested (widths item)) :
    ∀ part ∈ items.map extent, part.HoldsBox :=
  List.forall_mem_map.mpr fun item member => (fits item member).box

/-- Tracks that fit are upright. -/
theorem Fits.upright {widths : Track Rat → Rat}
    (fits : ∀ item ∈ items, item.Fits nested (widths item)) :
    ∀ part ∈ items.map extent, part.Upright :=
  fun part member => (Fits.boxes fits part member).upright

/-- The parts of a sequence stay in an area that is as long as they are together and reaches as far
as each of them. -/
theorem drawSequence_holds (gaps : 0 ≤ gap)
    (fits : ∀ item ∈ items, item.Fits nested item.extent.width) (left : whole.left ≤ x)
    (right : x + Extent.row gap (items.map extent) ≤ whole.right + gap)
    (heights : ∀ item ∈ items,
      whole.top ≤ y - item.extent.above ∧ y + item.extent.below ≤ whole.bottom) :
    whole.Holds (drawSequence nested gap x y items) := by
  induction items generalizing x with
  | nil => exact Area.holds_nil
  | cons item rest inductionHypothesis =>
    obtain ⟨here, later⟩ := List.forall_mem_cons.mp fits
    obtain ⟨⟨top, bottom⟩, heights⟩ := List.forall_mem_cons.mp heights
    have length := Extent.row_nonneg gaps (Fits.boxes later)
    rw [List.map_cons, Extent.row_cons] at right
    rw [drawSequence_cons, Area.holds_append]
    constructor
    · exact here.within left (by linarith) top bottom
    · exact inductionHypothesis later (by linarith [here.box.width]) (by linarith) heights

/-- Branches that hang from a joint stay in the given width, and between the upper edge of the first
and the height that they have together. -/
theorem drawBranches_holds {joint edge : Rat} (gaps : 0 ≤ gap)
    (fits : ∀ item ∈ items, item.Fits nested (width - 2)) (left : whole.left ≤ x)
    (right : x + width ≤ whole.right) (hangs : whole.top ≤ joint) (joins : joint ≤ whole.bottom)
    (top : whole.top ≤ edge)
    (bottom : edge + Extent.column gap (items.map extent) ≤ whole.bottom + gap) :
    whole.Holds (drawBranches nested gap x width joint edge items) := by
  induction items generalizing joint edge with
  | nil => exact Area.holds_nil
  | cons item rest inductionHypothesis =>
    obtain ⟨here, later⟩ := List.forall_mem_cons.mp fits
    obtain ⟨wide, above, below⟩ := here.box
    have height := Extent.column_nonneg gaps (Fits.upright later)
    have narrow := here.width
    rw [List.map_cons, Extent.column_cons] at bottom
    rw [drawBranches_cons, Area.holds_append, Area.holds_append]
    refine ⟨⟨?_, ?_⟩, ?_⟩
    · exact drawBranch_holds (by linarith) left right hangs joins (by linarith) (by linarith)
    · exact here.within (by linarith) (by linarith) (by linarith) (by linarith)
    · exact inductionHypothesis later (by linarith) (by linarith) (by linarith) (by linarith)

/-- The branches of a choice without an empty one stay in the given width, and between the first one
and the height that the others have below it. -/
theorem drawChoice_holds {first : Track Rat} (gaps : 0 ≤ gap)
    (fits : ∀ item ∈ first :: items, item.Fits nested (width - 2)) (left : whole.left ≤ x)
    (right : x + width ≤ whole.right) (top : whole.top ≤ y - first.extent.above)
    (bottom : y + first.extent.below + Extent.column gap (items.map extent) ≤ whole.bottom) :
    whole.Holds (drawChoice nested gap x y width (first :: items)) := by
  obtain ⟨here, later⟩ := List.forall_mem_cons.mp fits
  obtain ⟨_, above, below⟩ := here.box
  have height := Extent.column_nonneg gaps (Fits.upright later)
  rw [drawChoice_cons, Area.holds_append]
  constructor
  · exact here.within (by linarith) (by linarith) top (by linarith)
  · exact drawBranches_holds gaps later left right (by linarith) (by linarith) (by linarith)
      (by linarith)

/-- A track that stays inside its area fits in its own width. -/
theorem Measured.fits {track : Track Rat} (measured : track.Measured)
    (stays : track.StaysInside nested) (room : track.HasRoom track.extent.width) :
    track.Fits nested track.extent.width :=
  ⟨stays, room, le_refl _, measured.holdsBox⟩

section Kinds

variable {item separator : Track Rat}

/-- A track that may be passed by stays inside its area: the track is below the line. -/
theorem zeroOrOne_staysInside (measured : item.Measured) (stays : item.StaysInside nested) :
    (Track.zeroOrOne (zeroOrOneExtent item.extent) item).StaysInside nested := by
  intro x y width room wide
  cases room with
  | zeroOrOne room =>
    have fits := measured.fits stays room
    obtain ⟨_, above, below⟩ := fits.box
    rw [extent, zeroOrOneExtent_rat] at wide
    rw [area, span_of_stretches rfl, extent, zeroOrOneExtent_rat, draw_zeroOrOne, Area.holds_append]
    dsimp only at wide
    constructor
    · exact drawBypass_holds fits.box wide (le_refl _) (le_refl _) (by linarith) (by linarith)
    · exact fits.within (by linarith) (by linarith) (by linarith) (by linarith)

/-- A track on the way back stays inside its area: the track is on the loop above the line. -/
theorem zeroOrMore_staysInside (measured : item.Measured) (stays : item.StaysInside nested) :
    (Track.zeroOrMore (zeroOrMoreExtent item.extent) item).StaysInside nested := by
  intro x y width room wide
  cases room with
  | zeroOrMore room =>
    have fits := measured.fits stays room
    obtain ⟨_, above, below⟩ := fits.box
    rw [extent, zeroOrMoreExtent_rat] at wide
    rw [area, span_of_stretches rfl, extent, zeroOrMoreExtent_rat, draw_zeroOrMore,
      Area.holds_append]
    dsimp only at wide
    constructor
    · exact drawLoop_holds (by linarith) (by linarith) (by linarith) (by linarith) (by linarith)
        (by linarith)
    · exact fits.within (by linarith) (by linarith) (by linarith) (by linarith)

/-- A track with a way back stays inside its area: the loop is above the track. -/
theorem oneOrMore_staysInside (measured : item.Measured) (stays : item.StaysInside nested) :
    (Track.oneOrMore (oneOrMoreExtent item.extent) item).StaysInside nested := by
  intro x y width room wide
  cases room with
  | oneOrMore room =>
    have fits := measured.fits stays room
    obtain ⟨_, above, below⟩ := fits.box
    rw [extent, oneOrMoreExtent_rat] at wide
    rw [area, span_of_stretches rfl, extent, oneOrMoreExtent_rat, draw_oneOrMore,
      Area.holds_append]
    dsimp only at wide
    constructor
    · exact drawLoop_holds (by linarith) (by linarith) (by linarith) (by linarith) (by linarith)
        (by linarith)
    · exact fits.within (by linarith) (by linarith) (by linarith) (by linarith)

/-- A list stays inside its area if there is room in it: the separator is on the loop, and both it
and the item are in the middle. -/
theorem list_staysInside (onward : item.Measured) (returning : separator.Measured)
    (itemStays : item.StaysInside nested) (separatorStays : separator.StaysInside nested) :
    (Track.list (listExtent item.extent separator.extent) item separator).StaysInside nested := by
  intro x y width room wide
  cases room with
  | list loop middle itemRoom separatorRoom =>
    rw [extent, listExtent_rat] at wide
    rw [area, span_of_stretches rfl, extent, listExtent_rat, draw_list, Area.holds_append,
      Area.holds_append]
    have itemWidth := le_max_left item.extent.width separator.extent.width
    have separatorWidth := le_max_right item.extent.width separator.extent.width
    have separatorFits := returning.fits separatorStays separatorRoom
    obtain ⟨_, _, _⟩ := onward.holdsBox
    obtain ⟨_, _, _⟩ := returning.holdsBox
    dsimp only at wide
    have itemFits : item.Fits nested (width - 1) :=
      ⟨itemStays, itemRoom, by linarith, onward.holdsBox⟩
    have itemTaken : item.span (width - 1) ≤ (width + item.extent.width) / 2 := by
      cases grows : item.stretches with
      | true =>
        rw [span_of_stretches grows]
        linarith [middle grows]
      | false =>
        rw [span_of_rigid grows]
        linarith
    refine ⟨⟨?_, ?_⟩, ?_⟩
    · exact drawLoop_holds (by linarith) (by linarith) (by linarith) (by linarith) (by linarith)
        (by linarith)
    · exact separatorFits.within (by linarith) (by linarith) (by linarith) (by linarith)
    · exact itemFits.around (by linarith) (by linarith) (by linarith) (by linarith)

/-- A definition stays inside its area if there is room for its name. -/
theorem definition_staysInside {name : String} {left right : Rat} (leftMargin : 0 ≤ left)
    (rightMargin : 0 ≤ right) (measured : item.Measured) (stays : item.StaysInside nested) :
    (Track.definition (definitionExtent left right item.extent) name left right
      item).StaysInside nested := by
  intro x y width room wide
  cases room with
  | definition tab room =>
    have inner : (definitionExtent left right item.extent).width - left - right
        = item.extent.width := by
      rw [definitionExtent_rat]
      ring
    rw [inner] at room
    have fits := measured.fits stays room
    obtain ⟨_, _, _⟩ := fits.box
    rw [draw_definition, inner, Area.holds_append, area, span_of_rigid rfl, extent]
    rw [definitionExtent_rat] at tab ⊢
    dsimp only at tab
    constructor
    · refine drawPanel_holds ?_ tab ?_ ?_ (le_refl _) (le_refl _) (le_refl _) (le_refl _) <;>
        dsimp only <;> linarith
    · exact fits.within (by linarith) (by linarith) (by linarith) (by linarith)

variable {items : List (Track Rat)}

/-- A sequence stays inside its area. -/
theorem sequence_staysInside (nonempty : items ≠ []) (measured : ∀ item ∈ items, item.Measured)
    (stays : ∀ item ∈ items, item.StaysInside nested) :
    (Track.sequence (sequenceExtent sequenceGap (items.map extent)) sequenceGap
      items).StaysInside nested := by
  intro x y width room wide
  cases room with
  | sequence room =>
    have fits : ∀ item ∈ items, item.Fits nested item.extent.width := fun item member =>
      (measured item member).fits (stays item member) (room item member)
    obtain ⟨first, rest, rfl⟩ := List.exists_cons_of_ne_nil nonempty
    rw [area, span_of_rigid rfl, extent, draw]
    refine drawSequence_holds (by norm_num) fits (le_refl _) ?_ ?_
    · rw [List.map_cons, sequenceExtent_width, Extent.row_cons]
      linarith
    · intro item member
      have under : item.extent.Under (sequenceExtent sequenceGap ((first :: rest).map extent)) :=
        under_sequenceExtent _ (List.mem_map_of_mem member)
      exact ⟨by linarith [under.above], by linarith [under.below]⟩

/-- A choice stays inside its area. -/
theorem choice_staysInside {optional : Bool} (nonempty : items ≠ [])
    (measured : ∀ item ∈ items, item.Measured)
    (stays : ∀ item ∈ items, item.StaysInside nested) :
    (Track.choice (choiceExtent choiceGap optional (items.map extent)) choiceGap optional
      items).StaysInside nested := by
  intro x y width room wide
  cases room with
  | choice room =>
    have boxes : ∀ part ∈ items.map extent, part.HoldsBox :=
      List.forall_mem_map.mpr fun item member => (measured item member).holdsBox
    have gaps : (0 : Rat) ≤ choiceGap := by norm_num
    have fits : ∀ item ∈ items, item.Fits nested (width - 2) := by
      intro item member
      have narrow := (width_le_choiceExtent gaps boxes item.extent
        (List.mem_map_of_mem member)).trans wide
      exact ⟨stays item member, room item member, by linarith, (measured item member).holdsBox⟩
    obtain ⟨first, rest, rfl⟩ := List.exists_cons_of_ne_nil nonempty
    rw [extent] at wide
    rw [area, span_of_stretches rfl, extent, draw_choice]
    rw [List.map_cons] at wide boxes ⊢
    have box : (choiceExtent choiceGap optional (first.extent :: rest.map extent)).HoldsBox :=
      choice_holdsBox gaps boxes
    refine ends_holds (box.width.trans wide) (le_refl _) (le_refl _) ?_ ?_ ?_
    · linarith [box.above]
    · linarith [box.below]
    have upright := fun part member => (boxes part member).upright
    cases optional with
    | true =>
      obtain ⟨-, above, below⟩ := choiceExtent_true gaps upright
      have height := Extent.column_nonneg gaps upright
      rw [if_pos rfl, above, below]
      exact drawBranches_holds gaps fits (le_refl _) (le_refl _) (by linarith) (by linarith)
        (by linarith) (by rw [List.map_cons]; linarith)
    | false =>
      obtain ⟨-, above, below⟩ :=
        stackExtent_eq gaps (List.forall_mem_cons.mp upright).2 fun _ => (boxes _ (.head _)).high
      rw [choiceExtent_false, if_neg Bool.false_ne_true, above, below]
      exact drawChoice_holds gaps fits (le_refl _) (le_refl _) (le_refl _) (by linarith)

end Kinds

/-- A measured track stays inside its area. -/
theorem Measured.staysInside (measured : track.Measured) : track.StaysInside nested := by
  induction measured with
  | box wide =>
    intro x y width room fits
    rw [draw]
    exact drawBox_holds wide (le_refl _) (le_refl _) (le_refl _) (le_refl _)
  | sequence exact nonempty measured stays =>
    exact exact ▸ sequence_staysInside nonempty measured stays
  | choice exact nonempty measured stays =>
    exact exact ▸ choice_staysInside nonempty measured stays
  | zeroOrOne measured stays => exact zeroOrOne_staysInside measured stays
  | zeroOrMore measured stays => exact zeroOrMore_staysInside measured stays
  | oneOrMore measured stays => exact oneOrMore_staysInside measured stays
  | list onward returning itemStays separatorStays =>
    exact list_staysInside onward returning itemStays separatorStays
  | definition leftMargin rightMargin measured stays =>
    exact definition_staysInside leftMargin rightMargin measured stays

end Inside

end Track

end GrammarView
