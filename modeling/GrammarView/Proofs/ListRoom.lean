import GrammarView.Grammar.Validation
import GrammarView.Proofs.Areas
import GrammarView.Proofs.Widths

/-!
# Room in lists

Where a list places its item and its separator. Both are centred by their own widths, but only the
separator is drawn in its own: the item gets all that the list has left beside the loop. The loop,
and with it the line of the separator, is an arc above the item, however far the separator reaches
below its line. So a list that measures itself to have room for both has it just when the separator
reaches an arc below its line and the item is not stretched by more than the loop takes.
-/

namespace GrammarView

open Grid

namespace Area

/-- Whether a point lies in an area, but not on its edges. -/
structure Surrounds (area : Area) (point : Rat × Rat) : Prop where
  left : area.left < point.1
  right : point.1 < area.right
  top : area.top < point.2
  bottom : point.2 < area.bottom

/-- Whether two areas have no point in common but on their edges. -/
def Apart (first second : Area) : Prop :=
  ∀ point, ¬ (first.Surrounds point ∧ second.Surrounds point)

/-- An area is a part of another one when no edge of it lies outside. -/
theorem within_iff {inner outer : Area} : inner.Within outer ↔
    (outer.left ≤ inner.left ∧ inner.right ≤ outer.right) ∧
      outer.top ≤ inner.top ∧ inner.bottom ≤ outer.bottom :=
  ⟨fun within => ⟨⟨within.left, within.right⟩, within.top, within.bottom⟩,
    fun ⟨⟨left, right⟩, top, bottom⟩ => ⟨left, right, top, bottom⟩⟩

/-- Areas across one upright, the first of which begins further up, are apart if that one ends where
the other one begins. -/
theorem apart_iff {first second : Area} (middle : Rat)
    (firstSides : first.left < middle ∧ middle < first.right)
    (secondSides : second.left < middle ∧ middle < second.right) (further : first.top ≤ second.top)
    (high : second.top < second.bottom) : first.Apart second ↔ first.bottom ≤ second.top := by
  constructor
  · intro apart
    by_contra overlap
    obtain ⟨height, below, above⟩ := exists_between (lt_min (not_le.mp overlap) high)
    obtain ⟨inFirst, inSecond⟩ := lt_min_iff.mp above
    exact apart (middle, height)
      ⟨⟨firstSides.1, firstSides.2, further.trans_lt below, inFirst⟩,
        ⟨secondSides.1, secondSides.2, below, inSecond⟩⟩
  · rintro ends point ⟨inFirst, inSecond⟩
    exact ((inFirst.bottom.trans_le ends).trans inSecond.top).false

end Area

namespace Placed

/-- The area that a placed track is given: as wide as it is to be drawn, and as high as it is. -/
def area (placed : Placed Rat) : Area :=
  ⟨placed.x, placed.x + placed.width, placed.top, placed.bottom⟩

/-- Whether a track has room for two tracks in it, each in the area that it is given. -/
structure HasRoomFor (whole first second : Placed Rat) : Prop where
  firstWithin : first.area.Within whole.area
  secondWithin : second.area.Within whole.area
  apart : first.area.Apart second.area

/-- What a list has room for, if it is given a separator and an item where it places them. -/
structure RoomOfList (whole separator item : Placed Rat) : Prop where
  /-- A separator leaves its list at most below. -/
  separatorWithin : separator.area.Within whole.area ↔
    separator.track.extent.below ≤ item.track.extent.above + 1 / 2 + item.track.extent.below
  /-- An item leaves its list at most on the right. -/
  itemWithin : item.area.Within whole.area ↔ whole.width ≤ item.track.extent.width + 2
  /-- A separator overlaps with the item if it reaches further below its line than an arc. -/
  apart : separator.area.Apart item.area ↔ separator.track.extent.below = 1 / 2
  /-- There is room for both under two of these conditions. -/
  both : whole.HasRoomFor separator item ↔
    separator.track.extent.below = 1 / 2 ∧ whole.width ≤ item.track.extent.width + 2

section Lists

variable {nested : Bool} {x y width : Rat} {extent : Extent Rat} {item separator : Track Rat}

/-- Where a list of a width places its separator. -/
def separatorOf (x y width : Rat) (item separator : Track Rat) : Placed Rat :=
  ⟨x + (width - separator.extent.width) / 2, y - item.extent.above - 1 / 2, separator.extent.width,
    separator⟩

/-- Where a list of a width places its item. -/
def itemOf (x y width : Rat) (item : Track Rat) : Placed Rat :=
  ⟨x + (width - item.extent.width) / 2, y, width - 1, item⟩

/-- A list draws its loop, its separator on the line of the loop, and its item. -/
theorem draw_list : (Placed.mk x y width (.list extent item separator)).draw nested
    = drawLoop (x + 1 / 2) (separatorOf x y width item separator).y (x + width - 1 / 2) y (1 / 2)
        (some (separatorOf x y width item separator).y)
      ++ (separatorOf x y width item separator).draw nested
      ++ (itemOf x y width item).draw nested := by
  norm_num [draw, Track.draw, separatorOf, itemOf]

/-- The area of a separator. -/
theorem area_separatorOf : (separatorOf x y width item separator).area
    = ⟨x + (width - separator.extent.width) / 2,
      x + (width - separator.extent.width) / 2 + separator.extent.width,
      y - item.extent.above - 1 / 2 - separator.extent.above,
      y - item.extent.above - 1 / 2 + separator.extent.below⟩ :=
  rfl

/-- The area of an item. -/
theorem area_itemOf : (itemOf x y width item).area
    = ⟨x + (width - item.extent.width) / 2, x + (width - item.extent.width) / 2 + (width - 1),
      y - item.extent.above, y + item.extent.below⟩ :=
  rfl

/-- The area of a list that has been measured to have room for its item and its separator. -/
theorem area_list : (Placed.mk x y width
      (.list (Track.listExtent item.extent separator.extent) item separator)).area
    = ⟨x, x + width,
      y - (separator.extent.above + separator.extent.below + item.extent.above),
      y + item.extent.below⟩ := by
  rw [Track.listExtent_rat]
  rfl

section Room

variable (onward : item.extent.HoldsBox) (returning : separator.extent.HoldsBox)
  (itemFits : item.extent.width + 1 ≤ width) (separatorFits : separator.extent.width + 1 ≤ width)

include returning separatorFits in
/-- A separator leaves its list at most below. -/
theorem separator_within_iff : (separatorOf x y width item separator).area.Within
      (Placed.mk x y width
        (.list (Track.listExtent item.extent separator.extent) item separator)).area ↔
    separator.extent.below ≤ item.extent.above + 1 / 2 + item.extent.below := by
  have deep := returning.below
  simp only [area_separatorOf, area_list, Area.within_iff]
  constructor
  · rintro ⟨-, -, bottom⟩
    linarith
  · intro shallow
    and_intros <;> linarith

include returning itemFits in
/-- An item leaves its list at most on the right. -/
theorem item_within_iff : (itemOf x y width item).area.Within
      (Placed.mk x y width
        (.list (Track.listExtent item.extent separator.extent) item separator)).area ↔
    width ≤ item.extent.width + 2 := by
  have high := returning.high
  simp only [area_itemOf, area_list, Area.within_iff]
  constructor
  · rintro ⟨⟨-, right⟩, -⟩
    linarith
  · intro narrow
    and_intros <;> linarith

include onward returning itemFits in
/-- A separator is apart from the item if it reaches an arc below its line. Both are crossed by the
upright in the middle of the list. -/
theorem separator_apart_iff :
    (separatorOf x y width item separator).area.Apart (itemOf x y width item).area ↔
      separator.extent.below = 1 / 2 := by
  obtain ⟨itemWide, itemAbove, itemBelow⟩ := onward
  obtain ⟨separatorWide, separatorAbove, separatorBelow⟩ := returning
  have ends : (separatorOf x y width item separator).area.Apart (itemOf x y width item).area ↔
      y - item.extent.above - 1 / 2 + separator.extent.below ≤ y - item.extent.above := by
    simp only [area_separatorOf, area_itemOf]
    refine Area.apart_iff (x + width / 2) ⟨?_, ?_⟩ ⟨?_, ?_⟩ ?_ ?_ <;>
    · dsimp only
      linarith
  rw [ends]
  constructor
  · intro high
    linarith
  · intro exact
    linarith

end Room

/-- The room in a measured list. -/
theorem roomOfList (measured : (Track.list extent item separator).Measured)
    (wide : extent.width ≤ width) :
    (Placed.mk x y width (.list extent item separator)).RoomOfList
      (separatorOf x y width item separator) (itemOf x y width item) := by
  cases measured with
  | list itemMeasured separatorMeasured =>
    have onward := itemMeasured.holdsBox
    have returning := separatorMeasured.holdsBox
    have fits : max item.extent.width separator.extent.width + 1 ≤ width := by
      rwa [Track.listExtent_rat] at wide
    obtain ⟨itemFits, separatorFits⟩ := max_le_iff.mp (le_sub_iff_add_le.mpr fits)
    rw [le_sub_iff_add_le] at itemFits separatorFits
    refine ⟨separator_within_iff returning separatorFits, item_within_iff returning itemFits,
      separator_apart_iff onward returning itemFits, ?_⟩
    constructor
    · rintro ⟨-, itemWithin, apart⟩
      exact ⟨(separator_apart_iff onward returning itemFits).mp apart,
        (item_within_iff returning itemFits).mp itemWithin⟩
    · rintro ⟨shallow, narrow⟩
      refine ⟨(separator_within_iff returning separatorFits).mpr ?_,
        (item_within_iff returning itemFits).mpr narrow,
        (separator_apart_iff onward returning itemFits).mpr shallow⟩
      have above := onward.above
      have below := onward.below
      change separator.extent.below = 1 / 2 at shallow
      linarith

end Lists

end Placed

/-- Where any list of a diagram draws its separator and its item, in any width that is not less than
its own, and what room it has for them. It has room for both if the separator reaches an arc below
its line and the item is not stretched by more than the loop takes. -/
theorem lists_place_parts {grammar : RuleSet} (roomy : grammar.Roomy) {nesting : Option Nesting}
    {tree : Track Rat} (built : grammar.Builds nesting tree) {extent : Extent Rat}
    {item separator : Track Rat} (inside : .list extent item separator ∈ tree.measure.walk)
    (nested : Bool) (x y : Rat) {width : Rat} (wide : extent.width ≤ width) :
    let list := Placed.mk x y width (.list extent item separator)
    let returning := Placed.separatorOf x y width item separator
    let onward := Placed.itemOf x y width item
    list.draw nested
        = drawLoop (x + 1 / 2) returning.y (x + width - 1 / 2) y (1 / 2) (some returning.y)
          ++ returning.draw nested ++ onward.draw nested ∧
      list.RoomOfList returning onward := by
  obtain composed | measured := (built.composed roomy).throughout _ inside
  · cases composed
  · exact ⟨Placed.draw_list, Placed.roomOfList measured wide⟩

/-- Letters with something between them. -/
def lettersBetween (separator : Json) : Entries Json :=
  [("letters", .obj [("list", .str "letter"), ("separator", separator)]),
    ("letter", .obj [("token", .str "x")])]

/-- The rule of the letters. -/
def lettersRule (separator : Expr) : Rule :=
  ⟨"letters", .list "letter" separator, none, true, none, none, ["letter"], []⟩

/-- The grammar of the letters. -/
def lettersGrammar (separator : Expr) : RuleSet :=
  ⟨[lettersRule separator, ⟨"letter", .token "x", none, true, none, none, [], ["letters"]⟩]⟩

/-- There is a box in every part of the grammar of the letters, if there is in the separator. -/
theorem roomy_lettersGrammar {separator : Expr}
    (filled : Expr.Throughout Expr.Filled [separator]) : (lettersGrammar separator).Roomy := by
  constructor
  · simp [lettersGrammar, lettersRule, Rule.NonnegativeMargins]
  · have letter : Expr.Throughout Expr.Filled [.token "x"] := by
      simp [Expr.Throughout, Expr.Filled, Expr.partsOfAll, Expr.parts]
    have letters : Expr.Throughout Expr.Filled [.list "letter" separator] :=
      Expr.throughout_list.mpr ⟨by simp [Expr.Filled], filled⟩
    exact List.forall_mem_cons.mpr ⟨letters, List.forall_mem_singleton.mpr letter⟩

/-- A measured box around one character. -/
def characterBox (text : String) : Track Rat :=
  .box ⟨13 / 10, 1 / 2, 1 / 2⟩ .token text

/-- The measured list of letters. -/
def lettersTrack (separator : Track Rat) : Track Rat :=
  .list (Track.listExtent (characterBox "x").extent separator.extent) (characterBox "x") separator

/-- The diagram of the letters. -/
def lettersDiagram (separator : Expr) : Track Rat :=
  ((lettersGrammar separator).diagram none (lettersRule separator)).1

/-- The diagram of the letters is one of their grammar. -/
theorem builds_lettersDiagram (separator : Expr) :
    (lettersGrammar separator).Builds none (lettersDiagram separator) :=
  .diagram (.head _)

/-- A list of letters that is stretched a little has room for a letter and a comma. -/
theorem commas_fit_between_letters :
    let list := Placed.mk 0 0 3 (lettersTrack (characterBox ","))
    let returning := Placed.separatorOf 0 0 3 (characterBox "x") (characterBox ",")
    let onward := Placed.itemOf 0 0 3 (characterBox "x")
    validate (lettersBetween (.obj [("token", .str ",")])) false
        = .ok (lettersGrammar (.token ",")) ∧
      (lettersGrammar (.token ",")).Roomy ∧
      list.track ∈ (lettersDiagram (.token ",")).measure.walk ∧
      list.track.extent.width ≤ list.width ∧
      list.draw false
        = drawLoop (0 + 1 / 2) returning.y (0 + 3 - 1 / 2) 0 (1 / 2) (some returning.y)
          ++ returning.draw false ++ onward.draw false ∧
      list.HasRoomFor returning onward := by
  intro list returning onward
  have roomy : (lettersGrammar (.token ",")).Roomy := by
    apply roomy_lettersGrammar
    simp [Expr.Throughout, Expr.Filled, Expr.partsOfAll, Expr.parts]
  have inside : list.track ∈ (lettersDiagram (.token ",")).measure.walk := by
    cbv
    exact .tail _ (.tail _ (.head _))
  have wide : list.track.extent.width ≤ 3 := by decide +kernel
  obtain ⟨drawn, room⟩ :=
    lists_place_parts roomy (builds_lettersDiagram _) inside false 0 0 wide
  refine ⟨by cbv, roomy, inside, wide, drawn, room.both.mpr ?_⟩
  decide +kernel

/-- A measured comma that may be left out. -/
def optionalComma : Track Rat :=
  .zeroOrOne (Track.zeroOrOneExtent (characterBox ",").extent) (characterBox ",")

/-- A comma that may be left out is drawn over the letter, which is also given more than the list
has left for it. -/
theorem optional_commas_collide_with_letters :
    let list := Placed.mk 0 0 (lettersTrack optionalComma).extent.width (lettersTrack optionalComma)
    let returning := Placed.separatorOf 0 0 list.width (characterBox "x") optionalComma
    let onward := Placed.itemOf 0 0 list.width (characterBox "x")
    let optional : Expr := .quantified .zeroOrOne (.token ",")
    validate (lettersBetween (.obj [("zeroOrOne", .obj [("token", .str ",")])])) false
        = .ok (lettersGrammar optional) ∧
      (lettersGrammar optional).Roomy ∧
      list.track ∈ (lettersDiagram optional).measure.walk ∧
      list.draw false
        = drawLoop (0 + 1 / 2) returning.y (0 + list.width - 1 / 2) 0 (1 / 2) (some returning.y)
          ++ returning.draw false ++ onward.draw false ∧
      ¬ onward.area.Within list.area ∧ ¬ returning.area.Apart onward.area := by
  intro list returning onward optional
  have measured : list.track.Measured :=
    .list (.box (by norm_num)) (.zeroOrOne (.box (by norm_num)))
  have room : list.RoomOfList returning onward := Placed.roomOfList measured le_rfl
  refine ⟨by cbv, ?_, ?_, Placed.draw_list, ?_, ?_⟩
  · apply roomy_lettersGrammar
    simp [optional, Expr.Throughout, Expr.Filled, Expr.partsOfAll, Expr.parts]
  · cbv
    exact .tail _ (.tail _ (.head _))
  · rw [room.itemWithin]
    decide +kernel
  · rw [room.apart]
    decide +kernel

end GrammarView
