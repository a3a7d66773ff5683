import GrammarView.Grammar.Validation
import GrammarView.Proofs.Areas
import GrammarView.Proofs.Widths

/-!
# Lower tracks

The line that leads through a track that may be passed by. It begins where the arc that descends to
it ends. But it is as long as the width that the track is drawn in, while the arc that leaves it
stands where the track ends by its own width, so it ends loose in a track that is stretched. Only
the branches of choices and the items of lists are.
-/

namespace GrammarView

open Grid

/-- The level line among figures, and how far it goes on beyond the arc that leaves it. -/
structure LowerTrack (figures : List (Figure Rat)) (start stop height loose : Rat) : Prop where
  line : .line start height stop height ∈ figures
  /-- No other line is level. -/
  level : ∀ x0 x1 y, .line x0 y x1 y ∈ figures → x0 = start ∧ x1 = stop ∧ y = height
  /-- The line begins where an arc ends that comes from above. -/
  descends : ∃ x y radius, .arc x y radius .se ∈ figures ∧
    Figure.arcEnd x y radius .se = (start, height)
  /-- The arc that leaves the line begins where it should end. -/
  leaves : ∃ radius, .arc (stop - loose) height radius .en ∈ figures
  /-- An arc begins at the end of the line if nothing of it is loose. -/
  closes : (∃ radius turn, .arc stop height radius turn ∈ figures) ↔ loose = 0

section Bypasses

variable {item : Extent Rat} {x y width : Rat}

/-- The tracks around a track that may be passed by, in exact numbers. -/
theorem drawBypass_rat : drawBypass item x y width
    = [.line (x + 1) (y + item.above + 1 / 2) (x + width - 1) (y + item.above + 1 / 2),
        .arc x y (1 / 2) .es, .arc (x + 1 / 2) (y + item.above) (1 / 2) .se,
        .arc (x + item.width + 1) (y + item.above + 1 / 2) (1 / 2) .en,
        .arc (x + item.width + 3 / 2) (y + 1 / 2) (1 / 2) .ne]
      ++ if item.above = 1 / 2 then []
        else [.line (x + 1 / 2) (y + 1 / 2) (x + 1 / 2) (y + item.above),
          .line (x + item.width + 3 / 2) (y + 1 / 2) (x + item.width + 3 / 2)
            (y + item.above)] := by
  norm_num [drawBypass, Scalar.isSame]

/-- Of the lines around a track only the lower one is level. The other ones run between two arcs
that do not meet. -/
theorem eq_of_level_mem_drawBypass {start stop height : Rat}
    (member : .line start height stop height ∈ drawBypass item x y width) :
    start = x + 1 ∧ stop = x + width - 1 ∧ height = y + item.above + 1 / 2 := by
  rw [drawBypass_rat] at member
  obtain first | risers := List.mem_append.mp member
  · obtain ⟨left, lower, right, -⟩ : start = x + 1 ∧ height = y + item.above + 1 / 2 ∧
        stop = x + width - 1 ∧ height = y + item.above + 1 / 2 := by simpa using first
    exact ⟨left, right, lower⟩
  · split at risers
    case isTrue => contradiction
    case isFalse apart =>
      have ends : height = y + 1 / 2 ∧ height = y + item.above := by
        simp only [List.mem_cons, Figure.line.injEq, List.not_mem_nil, or_false] at risers
        obtain ⟨-, upper, -, lower⟩ | ⟨-, upper, -, lower⟩ := risers <;> exact ⟨upper, lower⟩
      exact (apart (by linarith)).elim

/-- Of the arcs around a track only the one that leaves the lower line begins at its height. -/
theorem eq_of_arc_mem_drawBypass (room : item.HoldsBox) {left radius : Rat} {turn : Turn}
    (member : .arc left (y + item.above + 1 / 2) radius turn ∈ drawBypass item x y width) :
    left = x + item.width + 1 := by
  have above := room.above
  rw [drawBypass_rat] at member
  obtain first | risers := List.mem_append.mp member
  · simp only [List.mem_cons, Figure.arc.injEq, reduceCtorEq, false_or, List.not_mem_nil,
      or_false] at first
    obtain ⟨-, top, -⟩ | ⟨-, top, -⟩ | ⟨begins, -⟩ | ⟨-, top, -⟩ := first
    · linarith
    · linarith
    · exact begins
    · linarith
  · split at risers <;> simp at risers

/-- The lower track of a track with room for a box is loose by what its width is more than its
own. -/
theorem lowerTrack_drawBypass (room : item.HoldsBox) :
    LowerTrack (drawBypass item x y width) (x + 1) (x + width - 1) (y + item.above + 1 / 2)
      (width - (item.width + 2)) where
  line := by
    rw [drawBypass_rat]
    exact .head _
  level := fun _ _ _ member => eq_of_level_mem_drawBypass member
  descends := by
    refine ⟨x + 1 / 2, y + item.above, 1 / 2, by simp [drawBypass_rat], ?_⟩
    norm_num [Figure.arcEnd, offset_rat]
    ring
  leaves := by
    have begins : x + width - 1 - (width - (item.width + 2)) = x + item.width + 1 := by ring
    exact ⟨1 / 2, by simp [drawBypass_rat, begins]⟩
  closes := by
    constructor
    · rintro ⟨radius, turn, member⟩
      have begins := eq_of_arc_mem_drawBypass room member
      linarith
    · intro exact
      have begins : x + width - 1 = x + item.width + 1 := by linarith
      exact ⟨1 / 2, .en, by simp [drawBypass_rat, begins]⟩

end Bypasses

/-- How a track that may be passed by is drawn as a part of a drawing. -/
structure PassedBy (nested : Bool) (drawing placed : Placed Rat) (item : Extent Rat) : Prop where
  /-- It is given at least its own width. -/
  wide : placed.track.extent.width ≤ placed.width
  /-- It is given more by a choice or as the item of a list, if at all. -/
  around : ∃ around, (around = drawing ∨ drawing.Makes nested (.part around)) ∧
    .part placed ∈ around.steps nested ∧ around.HandsDown placed
  drawn : ∀ figure ∈ drawBypass item placed.x placed.y placed.width, figure ∈ drawing.draw nested
  /-- Its lower track is loose by what it is given more. -/
  lower : LowerTrack (drawBypass item placed.x placed.y placed.width) (placed.x + 1)
    (placed.x + placed.width - 1) (placed.y + item.above + 1 / 2)
    (placed.width - placed.track.extent.width)

/-- Wherever a track that may be passed by is drawn in a diagram, its lower track begins where the
arc to it ends, and it ends where the arc from it begins just if the track is not stretched. -/
theorem lower_tracks_loose_when_stretched {grammar : RuleSet} (roomy : grammar.Roomy)
    {nesting : Option Nesting} {tree : Track Rat} (built : grammar.Builds nesting tree)
    {nested : Bool} {x y width : Rat} {placed : Placed Rat} {extent : Extent Rat}
    {item : Track Rat} (makes : (Placed.mk x y width tree.measure).Makes nested (.part placed))
    (optional : placed.track = .zeroOrOne extent item) :
    PassedBy nested ⟨x, y, width, tree.measure⟩ placed item.extent := by
  have sound : (Placed.mk x y width tree.measure).Sound := .diagram (built.composed roomy)
  obtain ⟨left, top, wide, track⟩ := placed
  obtain rfl := optional
  obtain ⟨composed⟩ | ⟨measured, enough⟩ := makes.sound sound
  · cases composed
  have bypass : (Placed.mk left top wide (.zeroOrOne extent item)).Makes nested
      (.bypass item.extent left top wide) := .own (.head _)
  refine ⟨enough, makes.handsDown sound measured, (makes.trans bypass).drawn, ?_⟩
  cases measured with
  | zeroOrOne part =>
    have own : (Track.zeroOrOne (Track.zeroOrOneExtent item.extent) item).extent.width
        = item.extent.width + 2 := by
      rw [Track.zeroOrOneExtent_rat]
      rfl
    rw [own]
    exact lowerTrack_drawBypass part.holdsBox

/-- A sign that may be left out, and a text, in a part of a kind. -/
def signDescription (kind text : String) : Entries Json :=
  [("sign", .obj [(kind, .arr [.obj [("zeroOrOne", .obj [("token", .str "-")])],
    .obj [("token", .str text)]])])]

/-- The body of such a sign. -/
def signBody (kind : List Expr → Expr) (text : String) : Expr :=
  kind [.quantified .zeroOrOne (.token "-"), .token text]

/-- The rule of a sign. -/
def signRule (body : Expr) (inline : Option Bool) : Rule :=
  ⟨"sign", body, inline, true, none, none, [], []⟩

/-- The grammar of a sign. -/
def signGrammar (body : Expr) (inline : Option Bool) : RuleSet :=
  ⟨[signRule body inline]⟩

/-- There is a box in every part of the grammar of a sign, if there is in the body. -/
theorem roomy_signGrammar {body : Expr} {inline : Option Bool}
    (filled : Expr.Throughout Expr.Filled [body]) : (signGrammar body inline).Roomy := by
  constructor
  · simp [signGrammar, signRule, Rule.NonnegativeMargins]
  · exact List.forall_mem_singleton.mpr filled

/-- The diagram of a sign. -/
def signDiagram (body : Expr) (inline : Option Bool) : Track Rat :=
  ((signGrammar body inline).diagram none (signRule body inline)).1

/-- A measured minus that may be left out. -/
def optionalMinus : Track Rat :=
  .zeroOrOne ⟨33 / 10, 1 / 2, 3 / 2⟩ (.box ⟨13 / 10, 1 / 2, 1 / 2⟩ .token "-")

/-- A measured diagram of a sign. -/
def signTrack (body : Track Rat) : Track Rat :=
  let panel : Track Rat :=
    .definition (Track.definitionExtent (1 / 2) (1 / 2) body.extent) "sign" (1 / 2) (1 / 2) body
  .rule (Track.ruleExtent (1 / 2) panel.extent) (1 / 2) panel

/-- A minus before digits. -/
def minusBeforeDigits : Expr :=
  signBody .sequence "digits"

/-- A minus beside a longer branch. -/
def minusOrLonger : Expr :=
  signBody .choice "plus or minus"

/-- Before digits the lower track of a minus is closed. -/
theorem minus_before_digits_closed :
    validate (signDescription "sequence" "digits") false = .ok (signGrammar minusBeforeDigits none) ∧
      (signGrammar minusBeforeDigits none).Roomy ∧
      ∃ placed : Placed Rat, placed.track = optionalMinus ∧
        (Placed.mk 0 0 9 (signDiagram minusBeforeDigits none).measure).Makes false (.part placed) ∧
        ∃ radius turn, .arc (placed.x + placed.width - 1) (placed.y + 1 / 2 + 1 / 2) radius turn
          ∈ drawBypass ⟨13 / 10, 1 / 2, 1 / 2⟩ placed.x placed.y placed.width := by
  have roomy : (signGrammar minusBeforeDigits none).Roomy := by
    apply roomy_signGrammar
    simp [minusBeforeDigits, signBody, Expr.Throughout, Expr.Filled, Expr.partsOfAll, Expr.parts]
  have measured : (signDiagram minusBeforeDigits none).measure
      = signTrack (.sequence ⟨33 / 5, 1 / 2, 3 / 2⟩ sequenceGap
        [optionalMinus, .box ⟨14 / 5, 1 / 2, 1 / 2⟩ .token "digits"]) := by cbv
  obtain ⟨placed, makes, track, width⟩ : ∃ placed,
      (Placed.mk 0 0 9 (signDiagram minusBeforeDigits none).measure).Makes false (.part placed) ∧
        placed.track = optionalMinus ∧ placed.width = optionalMinus.extent.width := by
    rw [measured]
    -- From the rule to its panel, from there to the body, and from there to its first item.
    exact ⟨_, .inside (.tail _ (.head _)) (.inside (.tail _ (.head _)) (.own (.head _))), rfl, rfl⟩
  have passedBy := lower_tracks_loose_when_stretched roomy (.diagram (.head _)) makes track
  refine ⟨by cbv, roomy, placed, track, makes, passedBy.lower.closes.mpr ?_⟩
  rw [track, width, sub_self]

/-- Beside a longer branch a minus is stretched, and no arc begins where its lower track ends. -/
theorem minus_beside_longer_branch_loose :
    validate (signDescription "choice" "plus or minus") false
        = .ok (signGrammar minusOrLonger (some false)) ∧
      (signGrammar minusOrLonger (some false)).Roomy ∧
      ∃ placed : Placed Rat, placed.track = optionalMinus ∧
        optionalMinus.extent.width ≤ placed.width ∧
        (Placed.mk 0 0 9 (signDiagram minusOrLonger (some false)).measure).Makes false
          (.part placed) ∧
        ∃ start stop height, .line start height stop height
            ∈ drawBypass ⟨13 / 10, 1 / 2, 1 / 2⟩ placed.x placed.y placed.width ∧
          ¬ ∃ radius turn, .arc stop height radius turn
            ∈ drawBypass ⟨13 / 10, 1 / 2, 1 / 2⟩ placed.x placed.y placed.width := by
  have measured : (signDiagram minusOrLonger (some false)).measure
      = signTrack (.choice ⟨69 / 10, 1 / 2, 27 / 10⟩ choiceGap false
        [optionalMinus, .box ⟨49 / 10, 1 / 2, 1 / 2⟩ .token "plus or minus"]) := by cbv
  obtain ⟨placed, makes, track, width⟩ : ∃ placed,
      (Placed.mk 0 0 9 (signDiagram minusOrLonger (some false)).measure).Makes false
        (.part placed) ∧ placed.track = optionalMinus ∧ placed.width = 49 / 10 := by
    rw [measured]
    -- The first branch comes after the arcs of the choice.
    refine ⟨_, .inside (.tail _ (.head _)) (.inside (.tail _ (.head _))
      (.own (.tail _ (.head _)))), rfl, ?_⟩
    norm_num [signTrack, Track.extent, Track.definitionExtent_rat, Track.ruleExtent_rat]
  have lower : LowerTrack (drawBypass ⟨13 / 10, 1 / 2, 1 / 2⟩ placed.x placed.y placed.width) _ _ _
      (placed.width - (13 / 10 + 2)) := lowerTrack_drawBypass ⟨by norm_num, le_rfl, le_rfl⟩
  refine ⟨by cbv, ?_, placed, track, ?_, makes, _, _, _, lower.line, ?_⟩
  · apply roomy_signGrammar
    simp [minusOrLonger, signBody, Expr.Throughout, Expr.Filled, Expr.partsOfAll, Expr.parts]
  · rw [width]
    decide +kernel
  · rw [lower.closes, width]
    norm_num

end GrammarView
