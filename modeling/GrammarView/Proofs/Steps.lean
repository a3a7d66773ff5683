import GrammarView.Diagram.Drawing
import GrammarView.Proofs.Tracks

/-!
# Drawing in steps

What is done to draw one track, as a list of steps: figures of its own, the three kinds of curves
that tracks are connected by, and the tracks inside it, each with the point and the width that it is
drawn with. The steps of a track are known without drawing the tracks inside it, so what holds of
every step of every track holds of a whole drawing.
-/

namespace GrammarView

open Grid

variable {α : Type}

/-- A track that is drawn from a point, in a width. -/
structure Placed (α : Type) where
  x : α
  y : α
  width : α
  track : Track α

/-- A step of drawing a track. -/
inductive Step (α : Type) where
  /-- A way back between two points, with a line at the height of the first one. -/
  | loop (x0 y0 x1 y1 : α)
  /-- The tracks around a track of an extent that may be passed by. -/
  | bypass (item : Extent α) (x y width : α)
  /-- The tracks to a branch of a choice and back. -/
  | branch (joint x y width : α)
  /-- Figures of the track itself. -/
  | figures (drawn : List (Figure α))
  /-- A track inside it. -/
  | part (placed : Placed α)

/-- The track that is drawn in a step, if any. -/
def Step.part? : Step α → Option (Placed α)
  | .part placed => some placed
  | _ => none

/-- Every track that is drawn in steps is one of the tracks that are drawn in them in order. -/
theorem track_mem_of_tracks {steps : List (Step α)} {placed : Placed α} {items : List (Track α)}
    (tracks : (steps.filterMap Step.part?).map Placed.track = items)
    (member : .part placed ∈ steps) : placed.track ∈ items := by
  rw [← tracks]
  exact List.mem_map_of_mem (List.mem_filterMap.mpr ⟨_, member, rfl⟩)

variable [Scalar α]

/-- The height that a placed track reaches up to. Heights grow downwards. -/
def Placed.top (placed : Placed α) : α :=
  placed.y - placed.track.extent.above

/-- The height that a placed track reaches down to. -/
def Placed.bottom (placed : Placed α) : α :=
  placed.y + placed.track.extent.below

/-- What is drawn for a placed track. -/
def Placed.draw (nested : Bool) (placed : Placed α) : List (Figure α) :=
  placed.track.draw nested placed.x placed.y placed.width

/-- What is drawn in a step without the tracks inside. -/
def Step.own : Step α → List (Figure α)
  | .loop x0 y0 x1 y1 => drawLoop x0 y0 x1 y1 arcRadius (some y0)
  | .bypass item x y width => drawBypass item x y width
  | .branch joint x y width => drawBranch joint x y width
  | .figures drawn => drawn
  | .part _ => []

/-- What is drawn in a step. -/
def Step.draw (nested : Bool) : Step α → List (Figure α)
  | .part placed => placed.draw nested
  | step => step.own

/-- The steps of tracks one after the other. -/
def sequenceSteps (gap x y : α) : List (Track α) → List (Step α)
  | [] => []
  | item :: rest =>
    .part ⟨x, y, item.extent.width, item⟩
      :: sequenceSteps gap (x + (item.extent.width + gap)) y rest

/-- The steps of diagrams below each other, from the upper edge of the first one. -/
def stackSteps (gap x width edge : α) : List (Track α) → List (Step α)
  | [] => []
  | item :: rest =>
    let y := edge + item.extent.above
    .part ⟨x, y, width, item⟩ :: stackSteps gap x width (y + (item.extent.below + gap)) rest

/-- The steps of branches that hang from a joint, from the upper edge of the first one. -/
def branchSteps (gap x width joint edge : α) : List (Track α) → List (Step α)
  | [] => []
  | item :: rest =>
    let y := edge + item.extent.above
    .branch joint x y width
      :: .part ⟨x + 2.0 * arcRadius, y, width - 4.0 * arcRadius, item⟩
      :: branchSteps gap x width (y - arcRadius) (y + (item.extent.below + gap)) rest

/-- The steps of the branches of a choice without an empty one. -/
def choiceSteps (gap x y width : α) : List (Track α) → List (Step α)
  | [] => []
  | item :: rest =>
    .part ⟨x + 2.0 * arcRadius, y, width - 4.0 * arcRadius, item⟩
      :: branchSteps gap x width (y + arcRadius) (y + (item.extent.below + gap)) rest

namespace Placed

/-- The steps of drawing a placed track, in order. -/
def steps (nested : Bool) (placed : Placed α) : List (Step α) :=
  let ⟨x, y, width, track⟩ := placed
  match track with
  | .box extent shape text => [.figures (drawBox x y extent.width boxHeight text shape)]
  | .sequence _ gap items => sequenceSteps gap x y items
  | .choice _ gap optional items =>
    .figures [.arc x y arcRadius .es, .arc (x + width) y arcRadius .ws]
      :: if optional then branchSteps gap x width (y + arcRadius) (y + arcRadius) items
        else choiceSteps gap x y width items
  | .stack _ gap items => stackSteps gap x width (Track.upperEdge y items) items
  | .zeroOrOne _ item =>
    [.bypass item.extent x y width,
      .part ⟨x + 2.0 * arcRadius, y + item.extent.above + arcRadius, item.extent.width, item⟩]
  | .zeroOrMore _ item =>
    let loop := y - item.extent.below - arcRadius
    [.loop (x + arcRadius) loop (x + width - arcRadius) y,
      .part ⟨x + arcRadius, loop, item.extent.width, item⟩]
  | .oneOrMore _ item =>
    let loop := y - item.extent.above - arcRadius
    [.loop (x + arcRadius) loop (x + width - arcRadius) y,
      .part ⟨x + arcRadius, y, item.extent.width, item⟩]
  | .list _ item separator =>
    let loop := y - item.extent.above - arcRadius
    [.loop (x + arcRadius) loop (x + width - arcRadius) y,
      .part ⟨x + (width - separator.extent.width) / 2.0, loop, separator.extent.width, separator⟩,
      .part ⟨x + (width - item.extent.width) / 2.0, y, width - 2.0 * arcRadius, item⟩]
  | .definition extent name left right item =>
    [.figures (drawPanel nested extent name x y),
      .part ⟨x + left, y, extent.width - left - right, item⟩]
  | .rule extent stub item =>
    [.figures [.line (x + capRadius) y (x + extent.width - capRadius) y],
      .part ⟨x + stub, y, extent.width - stub * 2.0, item⟩,
      .figures [.circle x y capRadius, .circle (x + extent.width) y capRadius]]
  | .unknown _ => [.figures (drawBox x y (Scalar.orElse width 1.0) boxHeight "unknown" .unknown)]

/-- The tracks that are drawn directly inside a placed track, in order. -/
def parts (nested : Bool) (placed : Placed α) : List (Placed α) :=
  (placed.steps nested).filterMap Step.part?

/-- The steps that are made while a placed track is drawn: its own and those of the tracks inside
it, however deep. -/
inductive Makes (nested : Bool) : Placed α → Step α → Prop where
  | own {placed step} (member : step ∈ placed.steps nested) : Makes nested placed step
  | inside {placed part step} (member : .part part ∈ placed.steps nested)
      (makes : Makes nested part step) : Makes nested placed step

end Placed

section Lists

variable {nested : Bool} {gap x y width joint edge : α}

/-- Tracks one after the other are drawn in their steps. -/
theorem drawSequence_eq_steps (items : List (Track α)) : Track.drawSequence nested gap x y items
    = (sequenceSteps gap x y items).flatMap (Step.draw nested) := by
  induction items generalizing x with
  | nil => rfl
  | cons item rest inductionHypothesis =>
    rw [Track.drawSequence, sequenceSteps, List.flatMap_cons, inductionHypothesis]
    rfl

/-- Diagrams below each other are drawn in their steps. -/
theorem drawStack_eq_steps (items : List (Track α)) : Track.drawStack nested gap x width edge items
    = (stackSteps gap x width edge items).flatMap (Step.draw nested) := by
  induction items generalizing edge with
  | nil => rfl
  | cons item rest inductionHypothesis =>
    rw [Track.drawStack, stackSteps, List.flatMap_cons, inductionHypothesis]
    rfl

/-- Branches that hang from a joint are drawn in their steps. -/
theorem drawBranches_eq_steps (items : List (Track α)) :
    Track.drawBranches nested gap x width joint edge items
      = (branchSteps gap x width joint edge items).flatMap (Step.draw nested) := by
  induction items generalizing joint edge with
  | nil => rfl
  | cons item rest inductionHypothesis =>
    rw [Track.drawBranches, branchSteps, List.flatMap_cons, List.flatMap_cons,
      ← inductionHypothesis]
    exact List.append_assoc ..

/-- The branches of a choice without an empty one are drawn in their steps. -/
theorem drawChoice_eq_steps (items : List (Track α)) : Track.drawChoice nested gap x y width items
    = (choiceSteps gap x y width items).flatMap (Step.draw nested) := by
  cases items with
  | nil => rfl
  | cons item rest =>
    rw [Track.drawChoice, choiceSteps, List.flatMap_cons, drawBranches_eq_steps]
    rfl

/-- All tracks one after the other are drawn, in order. -/
theorem tracks_sequenceSteps (items : List (Track α)) :
    ((sequenceSteps gap x y items).filterMap Step.part?).map Placed.track = items := by
  induction items generalizing x with
  | nil => rfl
  | cons item rest inductionHypothesis => exact congrArg (item :: ·) inductionHypothesis

/-- All diagrams of a stack are drawn, in order. -/
theorem tracks_stackSteps (items : List (Track α)) :
    ((stackSteps gap x width edge items).filterMap Step.part?).map Placed.track = items := by
  induction items generalizing edge with
  | nil => rfl
  | cons item rest inductionHypothesis => exact congrArg (item :: ·) inductionHypothesis

/-- All branches that hang from a joint are drawn, in order. -/
theorem tracks_branchSteps (items : List (Track α)) :
    ((branchSteps gap x width joint edge items).filterMap Step.part?).map Placed.track
      = items := by
  induction items generalizing joint edge with
  | nil => rfl
  | cons item rest inductionHypothesis => exact congrArg (item :: ·) inductionHypothesis

/-- All branches of a choice without an empty one are drawn, in order. -/
theorem tracks_choiceSteps (items : List (Track α)) :
    ((choiceSteps gap x y width items).filterMap Step.part?).map Placed.track = items := by
  cases items with
  | nil => rfl
  | cons item rest => exact congrArg (item :: ·) (tracks_branchSteps rest)

end Lists

namespace Placed

variable {nested : Bool}

/-- A track is drawn in its steps. -/
theorem draw_eq_steps (placed : Placed α) :
    placed.draw nested = (placed.steps nested).flatMap (Step.draw nested) := by
  obtain ⟨x, y, width, track⟩ := placed
  cases track with
  | box | unknown => exact (List.append_nil _).symm
  | sequence extent gap items => exact drawSequence_eq_steps items
  | choice extent gap optional items =>
    cases optional with
    | true => simp [draw, Track.draw, steps, Step.draw, Step.own, drawBranches_eq_steps]
    | false => simp [draw, Track.draw, steps, Step.draw, Step.own, drawChoice_eq_steps]
  | stack extent gap items => exact drawStack_eq_steps items
  | _ => simp [draw, Track.draw, steps, Step.draw, Step.own]

/-- What is drawn in a step of a track is one of the tracks directly inside it. -/
theorem track_mem_children {placed part : Placed α} (member : .part part ∈ placed.steps nested) :
    part.track ∈ placed.track.children := by
  obtain ⟨x, y, width, track⟩ := placed
  cases track with
  | sequence extent gap items => exact track_mem_of_tracks (tracks_sequenceSteps items) member
  | stack extent gap items => exact track_mem_of_tracks (tracks_stackSteps items) member
  | choice extent gap optional items =>
    obtain ends | later := List.mem_cons.mp member
    · cases ends
    cases optional with
    | true => exact track_mem_of_tracks (tracks_branchSteps items) later
    | false => exact track_mem_of_tracks (tracks_choiceSteps items) later
  | list extent item separator =>
    obtain ⟨rfl⟩ | ⟨rfl⟩ : part = _ ∨ part = _ := by simpa [steps] using member
    · exact .tail _ (.head _)
    · exact .head _
  | box | unknown => simp [steps] at member
  | _ =>
    obtain rfl : part = _ := by simpa [steps] using member
    exact .head _

/-- What is drawn in a step of a track is drawn for the track. -/
theorem Makes.drawn {placed : Placed α} {step : Step α} (makes : placed.Makes nested step) :
    ∀ figure ∈ step.draw nested, figure ∈ placed.draw nested := by
  induction makes with
  | own member =>
    intro figure drawn
    rw [draw_eq_steps]
    exact List.mem_flatMap_of_mem member drawn
  | inside member _ inductionHypothesis =>
    intro figure drawn
    rw [draw_eq_steps]
    exact List.mem_flatMap_of_mem member (inductionHypothesis figure drawn)

/-- What is made while a part of a drawing is drawn is made while the whole is. -/
theorem Makes.trans {whole part : Placed α} {step : Step α}
    (makes : whole.Makes nested (.part part)) (further : part.Makes nested step) :
    whole.Makes nested step := by
  generalize made : Step.part part = middle at makes
  induction makes with
  | own member => exact .inside (made ▸ member) further
  | inside member _ inductionHypothesis => exact .inside member (inductionHypothesis made)

/-- A drawing consists of what is drawn in the steps that are made for it. -/
theorem mem_draw_iff {placed : Placed α} {figure : Figure α} :
    figure ∈ placed.draw nested ↔ ∃ step, placed.Makes nested step ∧ figure ∈ step.own := by
  constructor
  · obtain ⟨x, y, width, track⟩ := placed
    induction track using Track.inductionOnChildren generalizing x y width with
    | step track inductionHypothesis =>
      intro drawn
      rw [draw_eq_steps] at drawn
      obtain ⟨step, member, drawn⟩ := List.mem_flatMap.mp drawn
      cases step with
      | part part =>
        obtain ⟨inner, makes, own⟩ := inductionHypothesis part.track (track_mem_children member)
          part.x part.y part.width drawn
        exact ⟨inner, .inside member makes, own⟩
      | _ => exact ⟨_, .own member, drawn⟩
  · rintro ⟨step, makes, own⟩
    refine makes.drawn figure ?_
    cases step with
    | part => contradiction
    | _ => exact own

end Placed

end GrammarView
