import GrammarView.Diagram.Drawing
import GrammarView.Proofs.Painting
import GrammarView.Proofs.Tracks
import Mathlib.Data.List.Perm.Basic

/-!
# Captions of drawings

Drawing a track loses no label and repeats none. The tracks inside a track are drawn in a fixed
order, whatever their extents are. Each of them that has a label is drawn with one text, and each
whole diagram with two caps.
-/

namespace GrammarView

namespace Track

variable {α : Type}

mutual

/-- A track and all tracks inside it in the order in which they are drawn: each before those
inside it, and a separator before its item. -/
def drawn : Track α → List (Track α)
  | .box extent shape text => [.box extent shape text]
  | .sequence extent gap items => .sequence extent gap items :: drawnAll items
  | .choice extent gap optional items => .choice extent gap optional items :: drawnAll items
  | .stack extent gap items => .stack extent gap items :: drawnAll items
  | .zeroOrOne extent item => .zeroOrOne extent item :: drawn item
  | .zeroOrMore extent item => .zeroOrMore extent item :: drawn item
  | .oneOrMore extent item => .oneOrMore extent item :: drawn item
  | .list extent item separator =>
    .list extent item separator :: (drawn separator ++ drawn item)
  | .definition extent name left right item =>
    .definition extent name left right item :: drawn item
  | .rule extent stub item => .rule extent stub item :: drawn item
  | .unknown extent => [.unknown extent]

/-- Several tracks and all tracks inside them in the order in which they are drawn. -/
def drawnAll : List (Track α) → List (Track α)
  | [] => []
  | item :: rest => drawn item ++ drawnAll rest

end

/-- The text that is drawn for a track, apart from those for the tracks inside it. -/
def label? : Track α → Option String
  | .box _ _ text => some text
  | .definition _ name _ _ _ => some name
  | .unknown _ => some "unknown"
  | _ => none

/-- Whether a track is a whole diagram. -/
def isRule : Track α → Bool
  | .rule _ _ _ => true
  | _ => false

/-- Several tracks are drawn one after the other. -/
theorem drawnAll_eq_flatMap (items : List (Track α)) : drawnAll items = items.flatMap drawn := by
  induction items with
  | nil => rfl
  | cons item rest inductionHypothesis => simp [drawnAll, inductionHypothesis]

/-- Every track that a walk meets is drawn once. -/
theorem drawn_perm_walk (track : Track α) : track.drawn.Perm track.walk := by
  induction track using Track.inductionOn with
  | box | unknown => exact .refl _
  | sequence | choice | stack =>
    rename_i each
    simp only [drawn, walk, drawnAll_eq_flatMap, walkAll_eq_flatMap]
    exact (List.Perm.flatMap_left _ each).cons _
  | zeroOrOne | zeroOrMore | oneOrMore | definition | rule =>
    rename_i inside
    exact inside.cons _
  | list extent item separator first second =>
    -- A walk meets the item before its separator, a drawing the other way round.
    exact ((second.append first).trans List.perm_append_comm).cons _

end Track

/-- Whether a figure is a circle. -/
def Figure.isCircle {α : Type} : Figure α → Bool
  | .circle _ _ _ => true
  | _ => false

/-- Whether a figure is a piece of track. -/
def Figure.isWay {α : Type} : Figure α → Bool
  | .line _ _ _ _ | .arc _ _ _ _ => true
  | _ => false

/-- Figures that show tracks: one text for each label, in order, and two circles for each whole
diagram. They can be painted in every complete theme. -/
structure Depicts {α : Type} (figures : List (Figure α)) (tracks : List (Track α)) : Prop where
  usual : ∀ figure ∈ figures, figure.Usual
  captions : figures.filterMap Figure.caption? = tracks.filterMap Track.label?
  caps : figures.countP Figure.isCircle = 2 * tracks.countP Track.isRule

namespace Depicts

variable {α : Type} {figures more : List (Figure α)} {tracks others : List (Track α)}
  {track : Track α}

/-- Figures of some tracks and then of others. -/
theorem append (first : Depicts figures tracks) (second : Depicts more others) :
    Depicts (figures ++ more) (tracks ++ others) where
  usual := List.forall_mem_append.mpr ⟨first.usual, second.usual⟩
  captions := by simp only [List.filterMap_append, first.captions, second.captions]
  caps := by simp only [List.countP_append, first.caps, second.caps]; omega

/-- Pieces of track show nothing themselves. -/
theorem ways (ways : ∀ figure ∈ figures, figure.isWay = true) : Depicts figures [] where
  usual := by
    intro figure member
    have way := ways figure member
    cases figure with
    | line | arc => exact .of_names [.stroke "track"] [] rfl rfl (by decide) (by decide)
    | _ => contradiction
  captions := by
    refine List.filterMap_eq_nil_iff.mpr fun figure member => ?_
    have way := ways figure member
    cases figure with
    | text => contradiction
    | _ => rfl
  caps := by
    refine List.countP_eq_zero.mpr fun figure member => ?_
    have way := ways figure member
    cases figure with
    | circle => contradiction
    | _ => exact Bool.false_ne_true

/-- A track without a label that is no whole diagram is shown by no figure of its own. -/
theorem around (inside : Depicts figures tracks) (silent : track.label? = none)
    (part : track.isRule = false) : Depicts figures (track :: tracks) where
  usual := inside.usual
  captions := by rw [List.filterMap_cons_none silent, inside.captions]
  caps := by rw [List.countP_cons_of_neg (by simp [part]), inside.caps]

/-- The caps of a whole diagram show it, with what is drawn between them. -/
theorem withCaps (inside : Depicts figures tracks) (silent : track.label? = none)
    (whole : track.isRule = true) (x y x' y' radius : α) :
    Depicts (figures ++ [.circle x y radius, .circle x' y' radius]) (track :: tracks) where
  usual := by
    refine List.forall_mem_append.mpr ⟨inside.usual, ?_⟩
    simp only [List.forall_mem_cons]
    refine ⟨?first, ?second, fun _ absent => nomatch absent⟩
    all_goals exact .of_names [.stroke "track"] [] rfl rfl (by decide) (by decide)
  captions := by
    rw [List.filterMap_append, inside.captions, List.filterMap_cons_none silent]
    exact List.append_nil _
  caps := by
    rw [List.countP_append, inside.caps, List.countP_cons_of_pos whole]
    exact (Nat.mul_succ _ _).symm

end Depicts

section Pieces

variable {α : Type} [Scalar α]

/-- The way back of a loop is made of pieces of track. -/
theorem drawLoop_depicts (x0 y0 x1 y1 radius : α) (line : Option α) :
    Depicts (drawLoop x0 y0 x1 y1 radius line) [] := by
  refine .ways ?_
  unfold drawLoop
  split <;> split <;> simp [Figure.isWay]

/-- The way past a track is made of pieces of track. -/
theorem drawBypass_depicts (item : Extent α) (x y width : α) :
    Depicts (drawBypass item x y width) [] := by
  refine .ways ?_
  simp only [drawBypass]
  split <;> simp [Figure.isWay]

/-- The ways to a branch and back are made of pieces of track. -/
theorem drawBranch_depicts (joint x y width : α) : Depicts (drawBranch joint x y width) [] :=
  .ways (by simp [drawBranch, Figure.isWay])

/-- The outline of a box shows nothing itself. -/
theorem boxOutline_depicts (x y width height : α) (shape : Shape) :
    Depicts [boxOutline x y width height shape] [] where
  usual := by
    rw [List.forall_mem_singleton]
    cases shape with
    | rule => exact .of_names [.fill "rule", .stroke "rule"] [] rfl rfl (by decide) (by decide)
    | token => exact .of_names [.fill "token", .stroke "token"] [] rfl rfl (by decide) (by decide)
    | terminal =>
      exact .of_names [.fill "terminal", .stroke "terminal"] [] rfl rfl (by decide) (by decide)
    | unknown => exact .of_names [.given "white", .given "red"] [] rfl rfl (by decide) (by decide)
  captions := by cases shape <;> rfl
  caps := by cases shape <;> rfl

/-- A box shows its text. -/
theorem drawBox_depicts (x y width height : α) {text : String} (shape : Shape) {track : Track α}
    (labelled : track.label? = some text) (part : track.isRule = false) :
    Depicts (drawBox x y width height text shape) [track] := by
  refine (boxOutline_depicts _ _ _ _ shape).append ⟨List.forall_mem_singleton.mpr ?_, ?_, ?_⟩
  · exact .of_names [.label shape] ["font-weight", "font-style", "text-anchor"] rfl rfl
      (List.forall_mem_singleton.mpr trivial) (by decide)
  · simp [Figure.caption?, labelled]
  · simp [Figure.isCircle, part]

/-- A panel shows its name. -/
theorem drawPanel_depicts (nested : Bool) (extent : Extent α) (name : String) (x y left right : α)
    (item : Track α) :
    Depicts (drawPanel nested extent name x y) [.definition extent name left right item] where
  usual := by
    simp only [drawPanel, List.forall_mem_cons]
    refine ⟨?tab, ?frame, ?panel, ?label, ?line, fun _ absent => nomatch absent⟩
    case tab | frame => exact .of_names [.frame] [] rfl rfl (by decide) (by decide)
    case panel =>
      exact .of_names [.panel nested] [] rfl rfl (List.forall_mem_singleton.mpr trivial)
        (by decide)
    case label =>
      exact .of_names [.stroke "definition"] ["font-style", "text-anchor"] rfl rfl (by decide)
        (by decide)
    case line => exact .of_names [.stroke "track"] [] rfl rfl (by decide) (by decide)
  captions := rfl
  caps := rfl

end Pieces

namespace Track

variable {α : Type} [Scalar α] {items : List (Track α)}

/-- Whether a track is shown by what is drawn for it, wherever it is drawn. -/
def Shown (track : Track α) : Prop :=
  ∀ nested x y width, Depicts (track.draw nested x y width) track.drawn

/-- Tracks one after the other are shown. -/
theorem drawSequence_depicts (shown : ∀ item ∈ items, item.Shown) (nested : Bool) (gap x y : α) :
    Depicts (drawSequence nested gap x y items) (drawnAll items) := by
  induction items generalizing x with
  | nil => exact .ways (by simp [drawSequence])
  | cons item rest inductionHypothesis =>
    obtain ⟨first, others⟩ := List.forall_mem_cons.mp shown
    exact (first nested _ _ _).append (inductionHypothesis others _)

/-- Diagrams below each other are shown. -/
theorem drawStack_depicts (shown : ∀ item ∈ items, item.Shown) (nested : Bool)
    (gap x width edge : α) :
    Depicts (drawStack nested gap x width edge items) (drawnAll items) := by
  induction items generalizing edge with
  | nil => exact .ways (by simp [drawStack])
  | cons item rest inductionHypothesis =>
    obtain ⟨first, others⟩ := List.forall_mem_cons.mp shown
    exact (first nested _ _ _).append (inductionHypothesis others _)

/-- Branches that hang from a joint are shown. -/
theorem drawBranches_depicts (shown : ∀ item ∈ items, item.Shown) (nested : Bool)
    (gap x width joint edge : α) :
    Depicts (drawBranches nested gap x width joint edge items) (drawnAll items) := by
  induction items generalizing joint edge with
  | nil => exact .ways (by simp [drawBranches])
  | cons item rest inductionHypothesis =>
    obtain ⟨first, others⟩ := List.forall_mem_cons.mp shown
    exact ((drawBranch_depicts _ _ _ _).append (first nested _ _ _)).append
      (inductionHypothesis others _ _)

/-- The branches of a choice without an empty one are shown. -/
theorem drawChoice_depicts (shown : ∀ item ∈ items, item.Shown) (nested : Bool)
    (gap x y width : α) : Depicts (drawChoice nested gap x y width items) (drawnAll items) := by
  cases items with
  | nil => exact .ways (by simp [drawChoice])
  | cons item rest =>
    obtain ⟨first, others⟩ := List.forall_mem_cons.mp shown
    exact (first nested _ _ _).append (drawBranches_depicts others nested _ _ _ _ _)

/-- Every track is shown by what is drawn for it. -/
theorem shown (track : Track α) : track.Shown := by
  induction track using Track.inductionOn with
  | box extent shape text => exact fun _ _ _ _ => drawBox_depicts _ _ _ _ shape rfl rfl
  | unknown extent => exact fun _ _ _ _ => drawBox_depicts _ _ _ _ .unknown rfl rfl
  | sequence extent gap items each =>
    exact fun nested x y _ => (drawSequence_depicts each nested gap x y).around rfl rfl
  | choice extent gap optional items each =>
    intro nested x y width
    have turns : Depicts
        [Figure.arc x y Grid.arcRadius .es, .arc (x + width) y Grid.arcRadius .ws]
        ([] : List (Track α)) := .ways (by simp [Figure.isWay])
    refine (turns.append ?_).around rfl rfl
    cases optional with
    | true => exact drawBranches_depicts each nested gap x width _ _
    | false => exact drawChoice_depicts each nested gap x y width
  | stack extent gap items each =>
    exact fun nested x _ width => (drawStack_depicts each nested gap x width _).around rfl rfl
  | zeroOrOne extent item inside =>
    exact fun nested _ _ _ =>
      ((drawBypass_depicts _ _ _ _).append (inside nested _ _ _)).around rfl rfl
  | zeroOrMore extent item inside | oneOrMore extent item inside =>
    exact fun nested _ _ _ =>
      ((drawLoop_depicts _ _ _ _ _ _).append (inside nested _ _ _)).around rfl rfl
  | list extent item separator inside between =>
    exact fun nested _ _ _ =>
      (((drawLoop_depicts _ _ _ _ _ _).append (between nested _ _ _)).append
        (inside nested _ _ _)).around rfl rfl
  | definition extent name left right item inside =>
    exact fun nested _ _ _ =>
      (drawPanel_depicts nested extent name _ _ left right item).append (inside nested _ _ _)
  | rule extent stub item inside =>
    intro nested x y width
    have line (x0 x1 : α) : Depicts [Figure.line x0 y x1 y] ([] : List (Track α)) :=
      .ways (by simp [Figure.isWay])
    exact ((line _ _).append (inside nested _ _ _)).withCaps rfl rfl _ _ _ _ _

end Track

/-- What stands in each of the elements of a name. -/
def Markup.contents (name : String) (elements : List Markup) : List (List Markup) :=
  elements.filterMap fun
    | .element other _ children => if other = name then some children else none
    | _ => none

/-- Elements that show a track. Each label is the content of one text, in the order in which the
tracks are drawn; each whole diagram has two caps; and the tracks that are drawn are those that
there are. -/
structure ShowsLabels {α : Type} (elements : List Markup) (track : Track α) : Prop where
  texts : Markup.contents "text" elements
    = (track.drawn.filterMap Track.label?).map fun label => [.text label]
  caps : (Markup.contents "ellipse" elements).length = 2 * track.drawn.countP Track.isRule
  all : track.drawn.Perm track.walk

section Elements

variable {α : Type} {figures : List (Figure α)} {elements : List Markup}

/-- The texts among the elements of figures are the captions of the figures. -/
theorem contents_text (shown : List.Forall₂ Figure.IsShownBy figures elements) :
    Markup.contents "text" elements
      = (figures.filterMap Figure.caption?).map fun caption => [.text caption] := by
  induction shown with
  | nil => rfl
  | @cons figure element figures elements first _ inductionHypothesis =>
    obtain ⟨attributes, -, rfl⟩ := first
    simp only [Markup.contents] at inductionHypothesis ⊢
    rw [List.filterMap_cons, List.filterMap_cons, inductionHypothesis]
    cases figure <;> simp [Figure.elementName, Figure.caption?]

/-- The ellipses among the elements of figures are the circles among the figures. -/
theorem length_contents_ellipse (shown : List.Forall₂ Figure.IsShownBy figures elements) :
    (Markup.contents "ellipse" elements).length = figures.countP Figure.isCircle := by
  induction shown with
  | nil => rfl
  | @cons figure element figures elements first _ inductionHypothesis =>
    obtain ⟨attributes, -, rfl⟩ := first
    simp only [Markup.contents] at inductionHypothesis ⊢
    rw [List.filterMap_cons, List.countP_cons, ← inductionHypothesis]
    cases figure <;> simp [Figure.elementName, Figure.isCircle]

end Elements

/-- Drawing loses no label and repeats none: every track, wherever and however it is drawn, becomes
elements that show its labels and its caps. -/
theorem drawing_keeps_labels {theme : Theme} (complete : theme.Complete) (track : Track Float)
    (nested : Bool) (x y width : Float) :
    ∃ elements, Figure.markupAll theme (track.draw nested x y width) = .ok elements
      ∧ ShowsLabels elements track := by
  have depicts := track.shown nested x y width
  obtain ⟨elements, made, shown⟩ := Figure.exists_markupAll complete depicts.usual
  refine ⟨elements, made, ?texts, ?caps, track.drawn_perm_walk⟩
  case texts => rw [contents_text shown, depicts.captions]
  case caps => rw [length_contents_ellipse shown, depicts.caps]

/-- A whole diagram of a panel with a list in it. -/
def rowsDiagram : Track Float :=
  let extent : Extent Float := ⟨1.5, 0.75, 0.75⟩
  .rule extent 1.0
    (.definition extent "rows" 0.5 0.5
      (.list extent (.box extent .rule "row") (.box extent .token ";")))

/-- The separator is drawn before the rows. -/
theorem rows_diagram_labels : Theme.standard.Complete
    ∧ (∃ elements,
      Figure.markupAll Theme.standard (rowsDiagram.draw false 0.0 0.0 4.0) = .ok elements
        ∧ ShowsLabels elements rowsDiagram)
    ∧ rowsDiagram.drawn.filterMap Track.label? = ["rows", ";", "row"] := by
  have complete : Theme.standard.Complete := by decide
  exact ⟨complete, drawing_keeps_labels complete rowsDiagram false 0.0 0.0 4.0, rfl⟩

end GrammarView
