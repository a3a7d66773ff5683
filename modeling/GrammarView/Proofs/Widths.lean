import GrammarView.Proofs.Extents
import GrammarView.Proofs.Steps

/-!
# Widths that are passed down

In which width the tracks of a drawing are drawn. A track is drawn in its own width, with two
exceptions: the branches of a choice and the item of a list get what the choice or the list has left
of the width that it was given itself. So width can come from far above, but only through choices
and items of lists, and no track is ever given less than its own width.
-/

namespace GrammarView

open Grid

/-- The trees that are built from rules: the diagram of a rule, and diagrams below each other. -/
inductive RuleSet.Builds (grammar : RuleSet) (nesting : Option Nesting) : Track Rat → Prop where
  | diagram {rule} (member : rule ∈ grammar.rules) :
      Builds grammar nesting (grammar.diagram nesting rule).1
  | stack {rules} (members : rules ⊆ grammar.rules) :
      Builds grammar nesting (.stackOf (grammar.diagramsOf nesting rules).1)

namespace Track

/-- Diagrams around measured panels, one or several below each other. -/
inductive Composed : Track Rat → Prop where
  | rule {stub panel} (measured : panel.Measured) :
      Composed (.rule (ruleExtent stub panel.extent) stub panel)
  | stack {extent gap items} (diagrams : ∀ item ∈ items, Composed item) :
      Composed (.stack extent gap items)

variable {track : Track Rat}

/-- The tracks directly inside a measured one are measured. -/
theorem Measured.children (measured : track.Measured) :
    ∀ child ∈ track.children, child.Measured := by
  cases measured with
  | box => exact nofun
  | sequence _ _ parts => exact parts
  | choice _ _ parts => exact parts
  | list onward returning =>
    exact List.forall_mem_cons.mpr ⟨onward, List.forall_mem_singleton.mpr returning⟩
  | zeroOrOne part => exact List.forall_mem_singleton.mpr part
  | zeroOrMore part => exact List.forall_mem_singleton.mpr part
  | oneOrMore part => exact List.forall_mem_singleton.mpr part
  | definition _ _ part => exact List.forall_mem_singleton.mpr part

/-- The tracks inside a measured one are measured, however deep. -/
theorem Measured.throughout (measured : track.Measured) : track.Throughout Measured := by
  induction track using inductionOnChildren with
  | step track inductionHypothesis =>
    exact throughout_iff.mpr ⟨measured, fun child member =>
      inductionHypothesis child member (measured.children child member)⟩

/-- Everything inside diagrams is a diagram or measured. -/
theorem Composed.throughout (composed : track.Composed) :
    track.Throughout fun part => part.Composed ∨ part.Measured := by
  induction composed with
  | rule measured =>
    refine throughout_iff.mpr ⟨.inl (.rule measured), List.forall_mem_singleton.mpr ?_⟩
    exact fun part member => .inr (measured.throughout part member)
  | stack diagrams inductionHypothesis =>
    exact throughout_iff.mpr ⟨.inl (.stack diagrams), inductionHypothesis⟩

/-- A diagram is drawn around what is measured for an expression, and is nothing like it. -/
theorem Composed.not_measured (composed : track.Composed) : ¬ track.Measured := by
  cases composed <;> exact nofun

end Track

/-- The trees that are built from roomy rules are diagrams around measured panels. -/
theorem RuleSet.Builds.composed {grammar : RuleSet} {nesting : Option Nesting} {tree : Track Rat}
    (built : grammar.Builds nesting tree) (roomy : grammar.Roomy) : tree.measure.Composed := by
  have diagram (nesting : Option Nesting) :
      ∀ rule ∈ grammar.rules, (grammar.diagram nesting rule).1.measure.Composed :=
    fun rule member => .rule (roomy.measured_panel member nesting)
  cases built with
  | diagram member => exact diagram nesting _ member
  | stack members =>
    rw [Track.stackOf, Track.measure, Track.measureAll_eq_map]
    exact .stack (List.forall_mem_map.mpr (RuleSet.forall_diagramsOf diagram nesting members))

/-- How wide a part of a placed track is drawn. -/
inductive Placed.HandsDown (whole part : Placed Rat) : Prop where
  /-- In its own width. -/
  | own (width : part.width = part.track.extent.width)
  /-- As a branch of a choice, in the whole width without that of the arcs. -/
  | branch {extent gap optional items} (choice : whole.track = .choice extent gap optional items)
      (width : part.width = whole.width - 2)
  /-- As the item of a list, in the whole width without that of the loop. -/
  | item {extent separator} (list : whole.track = .list extent part.track separator)
      (width : part.width = whole.width - 1)

section Steps

variable {nested : Bool} {gap x y width joint edge : Rat} {items : List (Track Rat)}
  {part : Placed Rat}

/-- The parts of a sequence are drawn in their own widths. -/
theorem width_of_sequenceSteps (member : .part part ∈ sequenceSteps gap x y items) :
    part.width = part.track.extent.width := by
  induction items generalizing x with
  | nil => contradiction
  | cons item rest inductionHypothesis =>
    obtain here | later := List.mem_cons.mp member
    · obtain rfl := Step.part.inj here
      rfl
    · exact inductionHypothesis later

/-- Branches that hang from a joint are drawn between the arcs. -/
theorem width_of_branchSteps (member : .part part ∈ branchSteps gap x width joint edge items) :
    part.width = width - 2 := by
  induction items generalizing joint edge with
  | nil => contradiction
  | cons item rest inductionHypothesis =>
    obtain tracks | member := List.mem_cons.mp member
    · contradiction
    obtain here | later := List.mem_cons.mp member
    · obtain rfl := Step.part.inj here
      norm_num
    · exact inductionHypothesis later

/-- The branches of a choice without an empty one are drawn between the arcs. -/
theorem width_of_choiceSteps (member : .part part ∈ choiceSteps gap x y width items) :
    part.width = width - 2 := by
  cases items with
  | nil => contradiction
  | cons item rest =>
    obtain here | later := List.mem_cons.mp member
    · obtain rfl := Step.part.inj here
      norm_num
    · exact width_of_branchSteps later

namespace Placed

variable {whole : Placed Rat}

/-- What a measured track hands down to the tracks directly inside it. -/
theorem handsDown (measured : whole.track.Measured) (member : .part part ∈ whole.steps nested) :
    whole.HandsDown part := by
  obtain ⟨x, y, width, track⟩ := whole
  cases measured with
  | box => simp [steps] at member
  | sequence => exact .own (width_of_sequenceSteps member)
  | @choice whole optional items =>
    obtain arcs | later := List.mem_cons.mp member
    · contradiction
    cases optional with
    | true => exact .branch rfl (width_of_branchSteps later)
    | false => exact .branch rfl (width_of_choiceSteps later)
  | list =>
    obtain rfl | rfl : part = _ ∨ part = _ := by simpa [steps] using member
    · exact .own rfl
    · exact .item rfl (by norm_num)
  | definition =>
    obtain rfl : part = _ := by simpa [steps] using member
    refine .own ?_
    rw [Track.definitionExtent_rat]
    ring
  | zeroOrOne | zeroOrMore | oneOrMore =>
    obtain rfl : part = _ := by simpa [steps] using member
    exact .own rfl

/-- No track inside a measured one is given less than its own width, if that one is not. -/
theorem HandsDown.wide (handsDown : whole.HandsDown part) (measured : whole.track.Measured)
    (inside : part.track ∈ whole.track.children)
    (wide : whole.track.extent.width ≤ whole.width) :
    part.track.extent.width ≤ part.width := by
  obtain ⟨x, y, width, track⟩ := whole
  cases handsDown with
  | own width => exact width.ge
  | @branch _ _ optional items choice given =>
    obtain rfl := choice
    cases measured with
    | choice exact nonempty parts =>
      have gaps : (0 : Rat) ≤ choiceGap := by norm_num
      have narrow : part.track.extent.width + 2
          ≤ (Track.choiceExtent choiceGap optional (items.map Track.extent)).width :=
        Track.width_le_choiceExtent gaps
          (List.forall_mem_map.mpr fun item member => (parts item member).holdsBox)
          part.track.extent (List.mem_map_of_mem inside)
      rw [Track.extent, exact] at wide
      rw [given]
      linarith
  | @item _ separator list given =>
    obtain rfl := list
    cases measured with
    | list onward returning =>
      have widest := le_max_left part.track.extent.width separator.extent.width
      rw [Track.extent, Track.listExtent_rat] at wide
      rw [given]
      linarith

/-- Whether a placed track is one of a drawing of diagrams: a diagram itself, or a measured track
with at least its own width. -/
inductive Sound : Placed Rat → Prop where
  | diagram {placed} (composed : placed.track.Composed) : Sound placed
  | part {placed} (measured : placed.track.Measured)
      (wide : placed.track.extent.width ≤ placed.width) : Sound placed

/-- What is drawn directly inside a track of a drawing is one, too. -/
theorem Sound.step (sound : whole.Sound) (member : .part part ∈ whole.steps nested) :
    part.Sound := by
  have inside := track_mem_children member
  cases sound with
  | part measured wide =>
    exact .part (measured.children _ inside) ((handsDown measured member).wide measured inside wide)
  | diagram composed =>
    obtain ⟨x, y, width, track⟩ := whole
    cases composed with
    | stack diagrams => exact .diagram (diagrams _ inside)
    | rule measured =>
      obtain rfl : part = _ := by simpa [steps] using member
      refine .part measured ?_
      norm_num [Track.ruleExtent_rat]

/-- What a track of a drawing hands down to a measured one directly inside it. The panel of a
diagram is all that is between its stubs. -/
theorem Sound.handsDown (sound : whole.Sound) (member : .part part ∈ whole.steps nested)
    (measured : part.track.Measured) : whole.HandsDown part := by
  cases sound with
  | part whole => exact Placed.handsDown whole member
  | diagram composed =>
    obtain ⟨x, y, width, track⟩ := whole
    cases composed with
    | stack diagrams => exact ((diagrams _ (track_mem_children member)).not_measured measured).elim
    | rule =>
      obtain rfl : part = _ := by simpa [steps] using member
      refine .own ?_
      norm_num [Track.ruleExtent_rat]

/-- Everything that is drawn in a drawing is a track of it. -/
theorem Makes.sound (makes : whole.Makes nested (.part part)) (sound : whole.Sound) :
    part.Sound := by
  generalize made : Step.part part = step at makes
  induction makes with
  | own member => exact sound.step (made ▸ member)
  | inside member _ inductionHypothesis => exact inductionHypothesis (sound.step member) made

/-- Every measured track in a drawing is drawn directly inside another one, which hands its width
down. -/
theorem Makes.handsDown (makes : whole.Makes nested (.part part)) (sound : whole.Sound)
    (measured : part.track.Measured) :
    ∃ around, (around = whole ∨ whole.Makes nested (.part around)) ∧
      .part part ∈ around.steps nested ∧ around.HandsDown part := by
  -- The induction is on the way down to the part, so the step at its end has to be a variable.
  generalize made : Step.part part = step at makes
  induction makes with
  | @own whole step member =>
    subst made
    exact ⟨whole, .inl rfl, member, sound.handsDown member measured⟩
  | inside member _ inductionHypothesis =>
    obtain ⟨around, rfl | inner, last, handsDown⟩ := inductionHypothesis (sound.step member) made
    · exact ⟨around, .inr (.own member), last, handsDown⟩
    · exact ⟨around, .inr (.inside member inner), last, handsDown⟩

end Placed

end Steps

end GrammarView
