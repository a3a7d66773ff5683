import GrammarView.Grammar.Validation
import GrammarView.Proofs.Areas
import GrammarView.Proofs.Steps

/-!
# Closed tracks

The curves of a drawing meet the tracks that they connect, in exact numbers. A loop is drawn by half
circles where its two tracks are closer than two radii, with a small tolerance, and half circles end
on both tracks only where these are two radii apart. The drawing takes this for granted, and so do
the risers of branches and of ways around a track, which are meant to run downwards. It holds
because every track reaches at least a radius above and below its line, and does so in whole
twentieths, of which none is as small as the tolerance.
-/

namespace GrammarView

open Grid

/-- The lengths of a whole number of twentieths. -/
def twentieths : AddSubmonoid Rat :=
  AddSubmonoid.multiples (1 / 20)

/-- Lengths are whole twentieths when they are a count of them. -/
theorem mem_twentieths {length : Rat} :
    length ∈ twentieths ↔ ∃ count : Nat, length = count / 20 := by
  rw [twentieths, AddSubmonoid.mem_multiples_iff]
  constructor
  · rintro ⟨count, rfl⟩
    exact ⟨count, by rw [nsmul_eq_mul]; ring⟩
  · rintro ⟨count, rfl⟩
    exact ⟨count, by rw [nsmul_eq_mul]; ring⟩

/-- Whole twentieths are no less than nothing. -/
theorem nonneg_of_mem_twentieths {length : Rat} (member : length ∈ twentieths) : 0 ≤ length := by
  obtain ⟨count, rfl⟩ := mem_twentieths.mp member
  positivity

/-- Less than a twentieth is none. -/
theorem eq_zero_of_mem_twentieths {length : Rat} (member : length ∈ twentieths)
    (small : length < 1 / 20) : length = 0 := by
  obtain ⟨count, rfl⟩ := mem_twentieths.mp member
  have none : count < 1 := by
    rw [div_lt_div_iff_of_pos_right (by norm_num)] at small
    exact_mod_cast small
  obtain rfl : count = 0 := by omega
  norm_num

namespace Extent

/-- Whether an extent reaches a radius, and a whole number of twentieths more, above its line and
below it. -/
structure Tall (extent : Extent Rat) : Prop where
  above : extent.above - 1 / 2 ∈ twentieths
  below : extent.below - 1 / 2 ∈ twentieths

variable {extent first : Extent Rat} {parts : List (Extent Rat)} {gap : Rat}

/-- A tall extent reaches at least a radius above its line. -/
theorem Tall.le_above (tall : extent.Tall) : 1 / 2 ≤ extent.above :=
  sub_nonneg.mp (nonneg_of_mem_twentieths tall.above)

/-- A tall extent reaches at least a radius below its line. -/
theorem Tall.le_below (tall : extent.Tall) : 1 / 2 ≤ extent.below :=
  sub_nonneg.mp (nonneg_of_mem_twentieths tall.below)

/-- The height of a tall extent is a whole number of twentieths. -/
theorem Tall.height (tall : extent.Tall) : extent.above + extent.below ∈ twentieths := by
  have radii : (1 : Rat) ∈ twentieths := mem_twentieths.mpr ⟨20, by norm_num⟩
  have sum := add_mem (add_mem tall.above tall.below) radii
  have same : extent.above - 1 / 2 + (extent.below - 1 / 2) + 1 = extent.above + extent.below := by
    ring
  rwa [same] at sum

/-- A tall extent is upright. -/
theorem Tall.upright (tall : extent.Tall) : extent.Upright :=
  ⟨by linarith [tall.le_above], by linarith [tall.le_below]⟩

/-- What reaches further than a tall extent by whole twentieths is tall. -/
theorem Tall.further {part : Extent Rat} (tall : part.Tall)
    (up : extent.above - part.above ∈ twentieths) (down : extent.below - part.below ∈ twentieths) :
    extent.Tall := by
  have upper := add_mem tall.above up
  have lower := add_mem tall.below down
  constructor
  · rwa [show part.above - 1 / 2 + (extent.above - part.above) = extent.above - 1 / 2 by ring]
      at upper
  · rwa [show part.below - 1 / 2 + (extent.below - part.below) = extent.below - 1 / 2 by ring]
      at lower

/-- The height of tall parts below each other is a whole number of twentieths. -/
theorem column_mem_twentieths (gaps : gap ∈ twentieths) (tall : ∀ part ∈ parts, part.Tall) :
    column gap parts ∈ twentieths := by
  refine list_sum_mem fun height member => ?_
  obtain ⟨part, inside, rfl⟩ := List.mem_map.mp member
  exact add_mem (tall part inside).height gaps

end Extent

namespace Track

section Extents

variable {item separator first : Extent Rat} {parts : List (Extent Rat)} {gap left right stub : Rat}

/-- A line without anything is tall. -/
theorem tall_line (width : Rat) : (⟨width, 1 / 2, 1 / 2⟩ : Extent Rat).Tall := by
  constructor <;> exact sub_self (1 / 2 : Rat) ▸ zero_mem twentieths

/-- A sequence of tall parts is tall. -/
theorem tall_sequenceExtent (tall : ∀ part ∈ first :: parts, part.Tall) :
    (sequenceExtent gap (first :: parts)).Tall := by
  rw [sequenceExtent]
  induction parts generalizing first with
  | nil => exact tall first (.head _)
  | cons part rest inductionHypothesis =>
    obtain ⟨here, next, later⟩ := by simpa only [List.forall_mem_cons] using tall
    refine inductionHypothesis (List.forall_mem_cons.mpr ⟨?_, later⟩)
    rw [appendExtent, greater_rat, greater_rat]
    constructor
    · rcases max_choice first.above part.above with upper | upper <;> rw [upper]
      exacts [here.above, next.above]
    · rcases max_choice first.below part.below with lower | lower <;> rw [lower]
      exacts [here.below, next.below]

/-- Tall diagrams below each other are tall. -/
theorem tall_stackExtent (gaps : gap ∈ twentieths) (tall : ∀ part ∈ first :: parts, part.Tall) :
    (stackExtent gap (first :: parts)).Tall := by
  obtain ⟨here, later⟩ := List.forall_mem_cons.mp tall
  have high : 0 < first.above + first.below := by linarith [here.le_above, here.le_below]
  obtain ⟨-, above, below⟩ := stackExtent_eq (nonneg_of_mem_twentieths gaps)
    (fun part member => (later part member).upright) fun _ => high
  refine here.further ?_ ?_
  · rw [above, sub_self]
    exact zero_mem _
  · rw [below, add_sub_cancel_left]
    exact Extent.column_mem_twentieths gaps later

/-- A choice between tall branches is tall. -/
theorem tall_choiceExtent {optional : Bool} (gaps : gap ∈ twentieths)
    (tall : ∀ part ∈ first :: parts, part.Tall) :
    (choiceExtent gap optional (first :: parts)).Tall := by
  cases optional with
  | false =>
    rw [choiceExtent_false]
    exact ⟨(tall_stackExtent gaps tall).above, (tall_stackExtent gaps tall).below⟩
  | true =>
    obtain ⟨-, above, below⟩ := choiceExtent_true (nonneg_of_mem_twentieths gaps)
      fun part member => (tall part member).upright
    refine (tall_line 0).further ?_ ?_
    · rw [above, sub_self]
      exact zero_mem _
    · rw [below, add_sub_cancel_left]
      exact Extent.column_mem_twentieths gaps tall

/-- A tall track that may be passed by is tall. -/
theorem tall_zeroOrOneExtent (tall : item.Tall) : (zeroOrOneExtent item).Tall := by
  rw [zeroOrOneExtent_rat]
  refine (tall_line 0).further ?_ ?_
  · exact sub_self (1 / 2 : Rat) ▸ zero_mem twentieths
  · exact (add_sub_cancel_right (item.above + item.below) (1 / 2)).symm ▸ tall.height

/-- A tall track on the way back is tall. -/
theorem tall_zeroOrMoreExtent (tall : item.Tall) : (zeroOrMoreExtent item).Tall := by
  rw [zeroOrMoreExtent_rat]
  refine (tall_line 0).further ?_ ?_
  · exact (add_sub_cancel_right (item.above + item.below) (1 / 2)).symm ▸ tall.height
  · exact sub_self (1 / 2 : Rat) ▸ zero_mem twentieths

/-- A tall track with a way back is tall. -/
theorem tall_oneOrMoreExtent (tall : item.Tall) : (oneOrMoreExtent item).Tall := by
  have loop : (3 / 4 : Rat) ∈ twentieths := mem_twentieths.mpr ⟨15, by norm_num⟩
  rw [oneOrMoreExtent_rat]
  refine tall.further ?_ ?_
  · exact (add_sub_cancel_left item.above (3 / 4)).symm ▸ loop
  · exact (sub_self item.below).symm ▸ zero_mem twentieths

/-- A tall track with a tall separator on the way back is tall. -/
theorem tall_listExtent (onward : item.Tall) (returning : separator.Tall) :
    (listExtent item separator).Tall := by
  rw [listExtent_rat]
  refine onward.further ?_ ?_
  · exact (add_sub_cancel_right (separator.above + separator.below) item.above).symm
      ▸ returning.height
  · exact (sub_self item.below).symm ▸ zero_mem twentieths

/-- A panel around a tall track is tall. -/
theorem tall_definitionExtent (tall : item.Tall) : (definitionExtent left right item).Tall := by
  have banner : (9 / 4 : Rat) ∈ twentieths := mem_twentieths.mpr ⟨45, by norm_num⟩
  have footer : (1 : Rat) ∈ twentieths := mem_twentieths.mpr ⟨20, by norm_num⟩
  rw [definitionExtent_rat]
  refine tall.further ?_ ?_
  · exact (add_sub_cancel_left item.above (9 / 4)).symm ▸ banner
  · exact (add_sub_cancel_left item.below 1).symm ▸ footer

/-- A diagram is as tall as its panel. -/
theorem tall_ruleExtent (tall : item.Tall) : (ruleExtent stub item).Tall := by
  rw [ruleExtent_rat]
  exact ⟨tall.above, tall.below⟩

end Extents

/-- Whether a measured track takes its part in closed tracks: it is tall, and a choice has branches
with the usual gap between them. -/
def Proper : Track Rat → Prop
  | .choice extent gap _ items => extent.Tall ∧ gap = choiceGap ∧ items ≠ []
  | track => track.extent.Tall

/-- What is proper is tall. -/
theorem Proper.tall {track : Track Rat} (proper : track.Proper) : track.extent.Tall := by
  cases track with
  | choice => exact proper.1
  | _ => exact proper

/-- What is proper throughout is tall. -/
theorem Throughout.tall {track : Track Rat} (proper : track.Throughout Proper) :
    track.extent.Tall :=
  (throughout_iff.mp proper).1.tall

section Measuring

variable {track : Track Rat} {tracks : List (Track Rat)}

/-- A box is proper. -/
theorem proper_boxOf (shape : Shape) (text : String) :
    (boxOf shape text : Track Rat).measure.Throughout Proper :=
  measure_boxOf shape text ▸ throughout_iff.mpr ⟨tall_line _, nofun⟩

/-- The tracks inside a proper one are proper when they have been measured. -/
theorem proper_measureAll (parts : ∀ track ∈ tracks, track.measure.Throughout Proper) :
    ∀ part ∈ measureAll tracks, part.Throughout Proper := by
  rw [measureAll_eq_map]
  exact List.forall_mem_map.mpr parts

/-- Proper tracks have tall extents, the first one of which is known where there are any. -/
theorem exists_extents (nonempty : tracks ≠ [])
    (parts : ∀ track ∈ tracks, track.measure.Throughout Proper) :
    ∃ first rest, (measureAll tracks).map extent = first :: rest ∧
      ∀ part ∈ first :: rest, part.Tall := by
  obtain ⟨first, rest, rfl⟩ := List.exists_cons_of_ne_nil nonempty
  refine ⟨first.measure.extent, (measureAll rest).map extent, rfl, ?_⟩
  rw [← List.map_cons, List.forall_mem_map, ← measureAll]
  exact fun part member => (proper_measureAll parts part member).tall

/-- A sequence of proper parts is proper. -/
theorem proper_sequenceOf (nonempty : tracks ≠ [])
    (parts : ∀ track ∈ tracks, track.measure.Throughout Proper) :
    (sequenceOf tracks).measure.Throughout Proper := by
  obtain ⟨first, rest, extents, tall⟩ := exists_extents nonempty parts
  rw [sequenceOf, measure, extents]
  exact throughout_iff.mpr ⟨tall_sequenceExtent tall, proper_measureAll parts⟩

/-- A choice between proper branches is proper. -/
theorem proper_choice {whole : Extent Rat} {optional : Bool} (nonempty : tracks ≠ [])
    (parts : ∀ track ∈ tracks, track.measure.Throughout Proper) :
    (Track.choice whole choiceGap optional tracks).measure.Throughout Proper := by
  have gaps : choiceGap ∈ twentieths := mem_twentieths.mpr ⟨4, by norm_num⟩
  obtain ⟨first, rest, extents, tall⟩ := exists_extents nonempty parts
  have some : measureAll tracks ≠ [] := by simpa [measureAll_eq_map] using nonempty
  rw [measure, extents]
  exact throughout_iff.mpr ⟨⟨tall_choiceExtent gaps tall, rfl, some⟩, proper_measureAll parts⟩

/-- Proper diagrams below each other are proper. -/
theorem proper_stackOf (nonempty : tracks ≠ [])
    (parts : ∀ track ∈ tracks, track.measure.Throughout Proper) :
    (stackOf tracks).measure.Throughout Proper := by
  have gaps : stackGap ∈ twentieths := mem_twentieths.mpr ⟨20, by norm_num⟩
  obtain ⟨first, rest, extents, tall⟩ := exists_extents nonempty parts
  rw [stackOf, measure, extents]
  exact throughout_iff.mpr ⟨tall_stackExtent gaps tall, proper_measureAll parts⟩

/-- A proper track is proper when it may be left out. -/
theorem Throughout.optionally (proper : track.measure.Throughout Proper) :
    track.optionally.measure.Throughout Proper := by
  cases track with
  | choice whole gap optional items =>
    rw [measure] at proper
    obtain ⟨⟨-, rfl, nonempty⟩, parts⟩ := throughout_iff.mp proper
    rw [children, measureAll_eq_map] at parts
    rw [measureAll_eq_map, ne_eq, List.map_eq_nil_iff] at nonempty
    exact proper_choice nonempty (List.forall_mem_map.mp parts)
  | _ =>
    exact throughout_iff.mpr
      ⟨tall_zeroOrOneExtent proper.tall, List.forall_mem_singleton.mpr proper⟩

/-- A proper track is proper when it is passed at least once. -/
theorem Throughout.repeatedly (proper : track.measure.Throughout Proper) :
    track.repeatedly.measure.Throughout Proper :=
  throughout_iff.mpr ⟨tall_oneOrMoreExtent proper.tall, List.forall_mem_singleton.mpr proper⟩

/-- A proper track is proper when it is passed any number of times. -/
theorem Throughout.anyNumberOf (proper : track.measure.Throughout Proper) :
    track.anyNumberOf.measure.Throughout Proper := by
  cases track with
  | sequence | definition | choice => exact proper.optionally.repeatedly
  | _ =>
    exact throughout_iff.mpr
      ⟨tall_zeroOrMoreExtent proper.tall, List.forall_mem_singleton.mpr proper⟩

/-- A list of proper tracks is proper. -/
theorem proper_list {whole : Extent Rat} {item separator : Track Rat}
    (onward : item.measure.Throughout Proper) (returning : separator.measure.Throughout Proper) :
    (Track.list whole item separator).measure.Throughout Proper :=
  throughout_iff.mpr ⟨tall_listExtent onward.tall returning.tall,
    List.forall_mem_cons.mpr ⟨onward, List.forall_mem_singleton.mpr returning⟩⟩

/-- A panel around a proper track is proper. -/
theorem Throughout.panel (proper : track.measure.Throughout Proper) (rule : Rule) :
    (Building.panel rule track).measure.Throughout Proper :=
  throughout_iff.mpr ⟨tall_definitionExtent proper.tall, List.forall_mem_singleton.mpr proper⟩

/-- A diagram of a proper panel is proper. -/
theorem Throughout.ruleOf (proper : track.measure.Throughout Proper) :
    (ruleOf track).measure.Throughout Proper :=
  throughout_iff.mpr ⟨tall_ruleExtent proper.tall, List.forall_mem_singleton.mpr proper⟩

end Measuring

end Track

namespace Building

variable {grammar : RuleSet} {place : Place} {before after : Option Nesting} {exprs : List Expr}
  {tracks : List (Track Rat)}

/-- A leaf that is not empty is drawn by proper tracks. -/
theorem DrawsLeaf.proper {owner : String} {expr : Expr} {track : Track Rat}
    (leaf : DrawsLeaf owner expr track) (filled : expr.Filled) :
    track.measure.Throughout Track.Proper := by
  cases leaf with
  | @tokens texts =>
    obtain ⟨-, -, some⟩ := filled
    have nonempty : texts ≠ [] := mt (congrArg Expr.tokens) some
    exact Track.proper_choice (by simpa using nonempty)
      (List.forall_mem_map.mpr fun _ _ => Track.proper_boxOf _ _)
  | _ => exact Track.proper_boxOf _ _

/-- Everything that is drawn from bodies without empty parts is proper. -/
theorem Draws.proper (draws : Draws grammar place before exprs tracks after)
    (rules : ∀ rule ∈ grammar.rules, Expr.Throughout Expr.Filled [rule.body])
    (filled : Expr.Throughout Expr.Filled exprs) :
    ∀ track ∈ tracks, track.measure.Throughout Track.Proper := by
  induction draws with
  | nil => exact nofun
  | cons _ _ first others =>
    obtain ⟨here, later⟩ := Expr.throughout_cons.mp filled
    exact List.forall_mem_cons.mpr ⟨first here _ (.head _), others later⟩
  | leaf leaf =>
    exact List.forall_mem_singleton.mpr (leaf.proper (filled _ (Expr.self_mem_partsOfAll _)))
  | sequence draws parts =>
    obtain ⟨⟨some, -, -⟩, inner⟩ := Expr.throughout_sequence.mp filled
    have nonempty := draws.tracks_ne_nil (mt (congrArg Expr.sequence) some)
    exact List.forall_mem_singleton.mpr (Track.proper_sequenceOf nonempty (parts inner))
  | choice draws parts =>
    obtain ⟨⟨-, some, -⟩, inner⟩ := Expr.throughout_choice.mp filled
    have nonempty := draws.tracks_ne_nil (mt (congrArg Expr.choice) some)
    exact List.forall_mem_singleton.mpr (Track.proper_choice nonempty (parts inner))
  | list _ parts =>
    obtain ⟨onward, returning⟩ := List.forall_mem_cons.mp (parts (filled_list filled))
    exact List.forall_mem_singleton.mpr (Track.proper_list onward (returning _ (.head _)))
  | @quantified _ _ _ quantifier _ _ _ part =>
    have proper := part (Expr.throughout_quantified.mp filled).2 _ (.head _)
    refine List.forall_mem_singleton.mpr ?_
    cases quantifier with
    | zeroOrOne => exact proper.optionally
    | zeroOrMore => exact proper.anyNumberOf
    | oneOrMore => exact proper.repeatedly
  | box => exact List.forall_mem_singleton.mpr (Track.proper_boxOf _ _)
  | splice found _ _ _ inner => exact inner (rules _ (RuleSet.get?_eq_some found).1)
  | panel found _ _ _ inner =>
    have proper := inner (rules _ (RuleSet.get?_eq_some found).1) _ (.head _)
    exact List.forall_mem_singleton.mpr (proper.panel _)

end Building

/-- Whether lines run downwards as they are drawn, if they do not keep their height. -/
def Descends (figures : List (Figure Rat)) : Prop :=
  ∀ x0 y0 x1 y1, .line x0 y0 x1 y1 ∈ figures → y0 ≤ y1

/-- Whether a loop meets both of its tracks. They are two radii apart or further. Where they are two
radii apart, the loop has half circles, which end on both tracks; where they are further apart, it
has risers of some length. -/
structure LoopCloses (x0 y0 x1 y1 : Rat) : Prop where
  apart : y0 + 1 ≤ y1
  halves : y1 = y0 + 1 →
    drawLoop x0 y0 x1 y1 (1 / 2) (some y0)
        = [.arc x0 y1 (1 / 2) .we, .arc x1 y0 (1 / 2) .ew, .line x0 y0 x1 y0] ∧
      Figure.arcEnd x0 y1 (1 / 2) .we = (x0, y0) ∧ Figure.arcEnd x1 y0 (1 / 2) .ew = (x1, y1)
  risers : y1 ≠ y0 + 1 →
    drawLoop x0 y0 x1 y1 (1 / 2) (some y0)
        = [.arc x0 y1 (1 / 2) .wn,
          .line (x0 - 1 / 2) (y1 - 1 / 2) (x0 - 1 / 2) (y0 + 1 / 2),
          .arc (x0 - 1 / 2) (y0 + 1 / 2) (1 / 2) .ne, .arc x1 y0 (1 / 2) .es,
          .line (x1 + 1 / 2) (y0 + 1 / 2) (x1 + 1 / 2) (y1 - 1 / 2), .arc x1 y1 (1 / 2) .en,
          .line x0 y0 x1 y0] ∧
      y0 + 1 / 2 < y1 - 1 / 2

/-- A loop meets its tracks if these are two radii and a whole number of twentieths apart: then it
is only within the tolerance that they are two radii apart. -/
theorem loopCloses_of_mem_twentieths {x0 y0 x1 y1 : Rat} (apart : y1 - y0 - 1 ∈ twentieths) :
    LoopCloses x0 y0 x1 y1 := by
  have further := nonneg_of_mem_twentieths apart
  constructor
  · linarith
  · rintro rfl
    have near : y0 + 1 - 1 / 2 < y0 + 1 / 2 + (1e-8 : Rat) := by
      norm_num
      linarith
    refine ⟨?_, ?_, ?_⟩
    · simp only [drawLoop, Scalar.isLess, near, decide_true, if_true, List.cons_append,
        List.nil_append]
    · norm_num [Figure.arcEnd, offset_rat]
    · norm_num [Figure.arcEnd, offset_rat]
  · intro differ
    have far : 1 / 20 ≤ y1 - y0 - 1 := by
      by_contra! small
      exact differ (by linarith [eq_zero_of_mem_twentieths apart small])
    have beyond : ¬ y1 - 1 / 2 < y0 + 1 / 2 + (1e-8 : Rat) := by
      norm_num
      linarith
    refine ⟨?_, by linarith⟩
    simp only [drawLoop, Scalar.isLess, beyond, decide_false, Bool.false_eq_true, if_false,
      List.cons_append, List.nil_append]

/-- The tracks to a branch run downwards from a joint that is a radius above the branch. -/
theorem drawBranch_descends {joint x y width : Rat} (hangs : joint ≤ y - 1 / 2) :
    Descends (drawBranch joint x y width) := by
  intro x0 y0 x1 y1 member
  simp only [drawBranch, arcRadius_rat, List.mem_cons, Figure.line.injEq, reduceCtorEq,
    List.not_mem_nil, or_false, false_or] at member
  obtain ⟨-, rfl, -, rfl⟩ | ⟨-, rfl, -, rfl⟩ | ⟨-, rfl, -, rfl⟩ := member
  · exact hangs
  · exact hangs
  · exact le_refl _

/-- The tracks around a track run downwards if it reaches a radius above its line. -/
theorem drawBypass_descends {item : Extent Rat} {x y width : Rat} (high : 1 / 2 ≤ item.above) :
    Descends (drawBypass item x y width) := by
  intro x0 y0 x1 y1 member
  have down : y + 1 / 2 ≤ y + item.above := add_le_add_right high y
  rw [drawBypass, List.mem_append] at member
  obtain member | member := member
  · simp only [List.mem_cons, Figure.line.injEq, reduceCtorEq, List.not_mem_nil, or_false] at member
    obtain ⟨-, rfl, -, rfl⟩ := member
    exact le_refl _
  · split at member
    · contradiction
    simp only [arcRadius_rat, List.mem_cons, Figure.line.injEq, List.not_mem_nil,
      or_false] at member
    obtain ⟨-, rfl, -, rfl⟩ | ⟨-, rfl, -, rfl⟩ := member
    · exact down
    · exact down

/-- Whether the curves of a step meet the tracks that they connect, if the tracks inside are
proper. -/
def Step.Closes : Step Rat → Prop
  | .loop x0 y0 x1 y1 => LoopCloses x0 y0 x1 y1
  | .bypass item x y width => Descends (drawBypass item x y width)
  | .branch joint x y width => Descends (drawBranch joint x y width)
  | .figures _ => True
  | .part placed => placed.track.Throughout Track.Proper

section Steps

variable {nested : Bool} {gap x y width joint edge : Rat} {items : List (Track Rat)}

/-- The steps of a sequence close. -/
theorem closes_sequenceSteps (parts : ∀ item ∈ items, item.Throughout Track.Proper) :
    ∀ step ∈ sequenceSteps gap x y items, step.Closes := by
  induction items generalizing x with
  | nil => exact nofun
  | cons item rest inductionHypothesis =>
    obtain ⟨here, later⟩ := List.forall_mem_cons.mp parts
    exact List.forall_mem_cons.mpr ⟨here, inductionHypothesis later⟩

/-- The steps of a stack close. -/
theorem closes_stackSteps (parts : ∀ item ∈ items, item.Throughout Track.Proper) :
    ∀ step ∈ stackSteps gap x width edge items, step.Closes := by
  induction items generalizing edge with
  | nil => exact nofun
  | cons item rest inductionHypothesis =>
    obtain ⟨here, later⟩ := List.forall_mem_cons.mp parts
    exact List.forall_mem_cons.mpr ⟨here, inductionHypothesis later⟩

/-- The steps of branches close if these hang from a joint that is not below them: the next joint is
not below the next branch either. -/
theorem closes_branchSteps (gaps : 0 ≤ gap) (joins : joint ≤ edge)
    (parts : ∀ item ∈ items, item.Throughout Track.Proper) :
    ∀ step ∈ branchSteps gap x width joint edge items, step.Closes := by
  induction items generalizing joint edge with
  | nil => exact nofun
  | cons item rest inductionHypothesis =>
    obtain ⟨here, later⟩ := List.forall_mem_cons.mp parts
    have above := here.tall.le_above
    have below := here.tall.le_below
    refine List.forall_mem_cons.mpr ⟨?_, List.forall_mem_cons.mpr ⟨here, ?_⟩⟩
    · exact drawBranch_descends (by linarith)
    · refine inductionHypothesis ?_ later
      rw [arcRadius_rat]
      linarith

/-- The steps of a choice without an empty branch close. -/
theorem closes_choiceSteps (gaps : 0 ≤ gap)
    (parts : ∀ item ∈ items, item.Throughout Track.Proper) :
    ∀ step ∈ choiceSteps gap x y width items, step.Closes := by
  cases items with
  | nil => exact nofun
  | cons item rest =>
    obtain ⟨here, later⟩ := List.forall_mem_cons.mp parts
    refine List.forall_mem_cons.mpr ⟨here, closes_branchSteps gaps ?_ later⟩
    rw [arcRadius_rat]
    linarith [here.tall.le_below]

/-- The steps of a proper track close. -/
theorem Placed.closes_steps {placed : Placed Rat}
    (proper : placed.track.Throughout Track.Proper) :
    ∀ step ∈ placed.steps nested, step.Closes := by
  obtain ⟨x, y, width, track⟩ := placed
  obtain ⟨own, parts⟩ := Track.throughout_iff.mp proper
  cases track with
  | box | unknown => exact List.forall_mem_singleton.mpr trivial
  | sequence extent gap items => exact closes_sequenceSteps parts
  | stack extent gap items => exact closes_stackSteps parts
  | choice extent gap optional items =>
    obtain ⟨-, rfl, -⟩ := own
    have gaps : (0 : Rat) ≤ choiceGap := by norm_num
    refine List.forall_mem_cons.mpr ⟨trivial, ?_⟩
    cases optional with
    | true => exact closes_branchSteps gaps (le_refl _) parts
    | false => exact closes_choiceSteps gaps parts
  | zeroOrOne extent item =>
    have here := List.forall_mem_singleton.mp parts
    exact List.forall_mem_cons.mpr
      ⟨drawBypass_descends here.tall.le_above, List.forall_mem_singleton.mpr here⟩
  | zeroOrMore extent item =>
    have here := List.forall_mem_singleton.mp parts
    refine List.forall_mem_cons.mpr ⟨?_, List.forall_mem_singleton.mpr here⟩
    refine loopCloses_of_mem_twentieths ?_
    convert here.tall.below using 1
    rw [arcRadius_rat]
    ring
  | oneOrMore extent item =>
    have here := List.forall_mem_singleton.mp parts
    refine List.forall_mem_cons.mpr ⟨?_, List.forall_mem_singleton.mpr here⟩
    refine loopCloses_of_mem_twentieths ?_
    convert here.tall.above using 1
    rw [arcRadius_rat]
    ring
  | list extent item separator =>
    obtain ⟨here, returning⟩ := List.forall_mem_cons.mp parts
    refine List.forall_mem_cons.mpr ⟨?_, List.forall_mem_cons.mpr ⟨returning _ (.head _), ?_⟩⟩
    · refine loopCloses_of_mem_twentieths ?_
      convert here.tall.above using 1
      rw [arcRadius_rat]
      ring
    · exact List.forall_mem_singleton.mpr here
  | definition extent name left right item =>
    have here := List.forall_mem_singleton.mp parts
    exact List.forall_mem_cons.mpr ⟨trivial, List.forall_mem_singleton.mpr here⟩
  | rule extent stub item =>
    have here := List.forall_mem_singleton.mp parts
    exact List.forall_mem_cons.mpr
      ⟨trivial, List.forall_mem_cons.mpr ⟨here, List.forall_mem_singleton.mpr trivial⟩⟩

/-- All steps that are made for a proper track close. -/
theorem Placed.Makes.closes {placed : Placed Rat} {step : Step Rat}
    (makes : placed.Makes nested step) (proper : placed.track.Throughout Track.Proper) :
    step.Closes := by
  induction makes with
  | own member => exact closes_steps proper _ member
  | inside member _ inductionHypothesis => exact inductionHypothesis (closes_steps proper _ member)

end Steps

/-- What holds of a tree of tracks and of its drawings, from any point and in any width. -/
structure Track.ClosesCurves (track : Track Rat) : Prop where
  /-- When the tree has been measured, every track in it reaches at least a radius above and below
  its line. Only a stack of nothing reaches nowhere. -/
  extents : ∀ part ∈ track.measure.walk, (∀ extent gap, part ≠ .stack extent gap []) →
    1 / 2 ≤ part.extent.above ∧ 1 / 2 ≤ part.extent.below
  /-- A drawing is what is drawn in its steps. -/
  steps : ∀ nested x y width figure, figure ∈ track.measure.draw nested x y width ↔
    ∃ step, (Placed.mk x y width track.measure).Makes nested step ∧ figure ∈ step.own
  /-- Every loop meets its two tracks. -/
  loops : ∀ nested x y width x0 y0 x1 y1,
    (Placed.mk x y width track.measure).Makes nested (.loop x0 y0 x1 y1) → LoopCloses x0 y0 x1 y1
  /-- The risers of every way around a track run downwards. -/
  bypasses : ∀ nested x y width item left line wide,
    (Placed.mk x y width track.measure).Makes nested (.bypass item left line wide) →
      Descends (drawBypass item left line wide)
  /-- The risers of every branch run downwards. -/
  branches : ∀ nested x y width joint left line wide,
    (Placed.mk x y width track.measure).Makes nested (.branch joint left line wide) →
      Descends (drawBranch joint left line wide)

/-- The curves of a proper tree close. -/
theorem Track.Throughout.closesCurves {track : Track Rat}
    (proper : track.measure.Throughout Track.Proper) : track.ClosesCurves where
  extents := fun part member _ =>
    ⟨(proper part member).tall.le_above, (proper part member).tall.le_below⟩
  steps := fun nested x y width figure =>
    @Placed.mem_draw_iff Rat _ nested ⟨x, y, width, track.measure⟩ figure
  loops := fun _ _ _ _ _ _ _ _ makes => makes.closes proper
  bypasses := fun _ _ _ _ _ _ _ _ makes => makes.closes proper
  branches := fun _ _ _ _ _ _ _ _ makes => makes.closes proper

/-- Nothing is drawn for a stack of nothing. -/
theorem Track.closesCurves_stackOf_nil : (Track.stackOf [] : Track Rat).ClosesCurves := by
  have idle (nested : Bool) (x y width : Rat) (step : Step Rat) :
      ¬ (Placed.mk x y width (Track.stackOf []).measure).Makes nested step := by
    rintro (⟨member⟩ | ⟨member, -⟩) <;> cases member
  constructor
  case extents =>
    intro part member some
    obtain rfl := List.mem_singleton.mp member
    exact absurd rfl (some _ _)
  case steps =>
    exact fun nested x y width figure =>
      @Placed.mem_draw_iff Rat _ nested ⟨x, y, width, (Track.stackOf []).measure⟩ figure
  all_goals exact fun _ _ _ _ _ _ _ _ makes => (idle _ _ _ _ _ makes).elim

/-- The diagram of a rule whose body has no empty part, like all others, is proper. -/
theorem RuleSet.proper_diagram {grammar : RuleSet}
    (filled : ∀ rule ∈ grammar.rules, Expr.Throughout Expr.Filled [rule.body])
    (nesting : Option Nesting) {rule : Rule} (member : rule ∈ grammar.rules) :
    (grammar.diagram nesting rule : Building.Built (Track Rat)).1.measure.Throughout
      Track.Proper := by
  obtain ⟨item, after, diagram, draws⟩ := grammar.diagram_drawn (α := Rat) nesting rule
  have proper := draws.proper filled (filled rule member) item (.head _)
  rw [diagram]
  exact (proper.panel rule).ruleOf

/-- The diagrams of such rules are proper. -/
theorem RuleSet.proper_diagramsOf {grammar : RuleSet}
    (filled : ∀ rule ∈ grammar.rules, Expr.Throughout Expr.Filled [rule.body])
    (nesting : Option Nesting) {rules : List Rule} (members : rules ⊆ grammar.rules) :
    ∀ track ∈ (grammar.diagramsOf nesting rules : Building.Built (List (Track Rat))).1,
      track.measure.Throughout Track.Proper :=
  forall_diagramsOf (fun nesting _ member => proper_diagram filled nesting member) nesting members

/-- If nothing in the bodies of rules is empty, the curves of every tree that is built from them
close: of the diagram of each rule, and of any diagrams below each other. -/
theorem curves_close {grammar : RuleSet}
    (filled : ∀ rule ∈ grammar.rules, Expr.Throughout Expr.Filled [rule.body])
    (nesting : Option Nesting) :
    (∀ rule ∈ grammar.rules, (grammar.diagram nesting rule).1.ClosesCurves) ∧
      ∀ rules ⊆ grammar.rules,
        (Track.stackOf (grammar.diagramsOf nesting rules).1).ClosesCurves := by
  constructor
  · intro rule member
    exact (RuleSet.proper_diagram filled nesting member).closesCurves
  · intro rules members
    have proper := RuleSet.proper_diagramsOf filled nesting members
    cases drawn : (grammar.diagramsOf nesting rules : Building.Built (List (Track Rat))).1 with
    | nil => exact Track.closesCurves_stackOf_nil
    | cons first others =>
      rw [drawn] at proper
      exact (Track.proper_stackOf (List.cons_ne_nil _ _) proper).closesCurves

/-- Numbers with digits in groups, which may have a sign. -/
def groupedDigits : Entries Json :=
  [("number", .obj [("sequence", .arr [.obj [("zeroOrOne", .obj [("tokens", .arr [.str "+",
      .str "-"])])], .obj [("list", .str "group"), ("separator", .obj [("token", .str "'")])]])]),
    ("group", .obj [("oneOrMore", .obj [("choice", .arr [.obj [("terminal", .str "digit")],
      .obj [("zeroOrMore", .str "number")]])])])]

/-- The grammar of the numbers. -/
def groupedDigitsGrammar : RuleSet :=
  ⟨[⟨"number", .sequence [.quantified .zeroOrOne (.tokens ["+", "-"]), .list "group" (.token "'")],
      none, true, none, none, ["group"], ["group"]⟩,
    ⟨"group", .quantified .oneOrMore (.choice [.terminal "digit",
        .quantified .zeroOrMore (.reference "number")]), none, true, none, none, ["number"],
      ["number"]⟩]⟩

/-- The curves in a composite diagram of the numbers close. -/
theorem curves_of_grouped_digits_close :
    validate groupedDigits false = .ok groupedDigitsGrammar ∧
      (∀ rule ∈ groupedDigitsGrammar.rules, Expr.Throughout Expr.Filled [rule.body]) ∧
      (∀ rule ∈ groupedDigitsGrammar.rules,
        (groupedDigitsGrammar.diagram (some (.start [] "number")) rule).1.ClosesCurves) ∧
      ∀ rules ⊆ groupedDigitsGrammar.rules, (Track.stackOf
        (groupedDigitsGrammar.diagramsOf (some (.start [] "number")) rules).1).ClosesCurves := by
  have filled : ∀ rule ∈ groupedDigitsGrammar.rules,
      Expr.Throughout Expr.Filled [rule.body] := by
    simp [groupedDigitsGrammar, Expr.Throughout, Expr.Filled, Expr.partsOfAll, Expr.parts]
  exact ⟨by cbv, filled, curves_close filled _⟩

/-- A word that has no diagram. -/
def hiddenWord : Entries Json :=
  [("word", .obj [("token", .str "x"), ("railroad", .bool false)])]

/-- The grammar of the word. -/
def hiddenWordGrammar : RuleSet :=
  ⟨[⟨"word", .token "x", none, false, none, none, [], []⟩]⟩

/-- The stack of all diagrams is empty where no rule has one, and then it is not tall. -/
theorem empty_stack_reaches_nowhere :
    validate hiddenWord false = .ok hiddenWordGrammar ∧
      (∀ rule ∈ hiddenWordGrammar.rules, Expr.Throughout Expr.Filled [rule.body]) ∧
      ∃ part ∈ (Track.stackOf (hiddenWordGrammar.diagrams none).1 : Track Rat).measure.walk,
        ¬ 1 / 2 ≤ part.extent.above := by
  have filled : ∀ rule ∈ hiddenWordGrammar.rules, Expr.Throughout Expr.Filled [rule.body] := by
    simp [hiddenWordGrammar, Expr.Throughout, Expr.Filled, Expr.partsOfAll, Expr.parts]
  have none : (hiddenWordGrammar.diagrams none : Building.Built (List (Track Rat))).1 = [] := by cbv
  rw [none]
  refine ⟨by cbv, filled, _, .head _, ?_⟩
  norm_num [Track.extent, Track.stackExtent, Track.measureAll, Track.Pile.start, Track.Pile.extent]

end GrammarView
