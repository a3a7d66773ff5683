import GrammarView.Proofs.DoubleValues
import GrammarView.Proofs.Tracks
import GrammarView.Proofs.WellFormed

/-!
# Margins of definitions

Where the margins of the definitions in a diagram come from. Every definition, the outermost one and
each that is nested in it, has the margins of its rule, and these have been read from the settings
beside the body of the rule. A margin that is not given is the usual one. So is a margin of zero:
it is read as a number, but a definition is never drawn flush with what it defines.
-/

namespace GrammarView

namespace Track

variable {α : Type}

/-- The margins of a definition with its name; other tracks have none. -/
def margins? : Track α → Option (String × α × α)
  | .definition _ name left right _ => some (name, left, right)
  | _ => none

/-- The margins of the definitions in a track, in the order of a walk. -/
def margins (track : Track α) : List (String × α × α) :=
  track.walk.filterMap margins?

/-- The margins of a track come before those inside it. -/
theorem margins_eq (track : Track α) :
    track.margins = track.margins?.toList ++ track.children.flatMap margins :=
  track.filterMap_walk margins?

/-- The margins of every definition that is met on a walk are among those of the track. -/
theorem mem_margins {track item : Track α} {extent : Extent α} {name : String} {left right : α}
    (met : .definition extent name left right item ∈ track.walk) :
    (name, left, right) ∈ track.margins :=
  List.mem_filterMap.mpr ⟨_, met, rfl⟩

/-- Something holds of all margins in a track if it holds of those of the track itself and of all
margins in the tracks directly inside it. -/
theorem forall_margins {holds : String × α × α → Prop} {track : Track α}
    (own : ∀ margins ∈ track.margins?.toList, holds margins)
    (inner : ∀ child ∈ track.children, ∀ margins ∈ child.margins, holds margins) :
    ∀ margins ∈ track.margins, holds margins := by
  intro margins member
  rw [margins_eq] at member
  rcases List.mem_append.mp member with first | later
  · exact own margins first
  · obtain ⟨child, listed, met⟩ := List.mem_flatMap.mp later
    exact inner child listed margins met

/-- A part with a quantifier has the margins of the part. -/
theorem margins_quantifier [Scalar α] (quantifier : Quantifier) (item : Track α) :
    (quantifier.track item).margins = item.margins := by
  cases quantifier <;> cases item <;> rfl

end Track

namespace Building

section Panels

variable {α : Type} [Scalar α]

/-- Whether margins are those of the panel of a rule. -/
def OfRule (grammar : RuleSet) (margins : String × α × α) : Prop :=
  ∃ rule ∈ grammar.rules, margins = (rule.name, marginOf rule.left, marginOf rule.right)

variable {grammar : RuleSet}

/-- A leaf has no definition in it. -/
theorem DrawsLeaf.margins {owner : String} {expr : Expr} {track : Track α}
    (leaf : DrawsLeaf owner expr track) : track.margins = [] := by
  cases leaf with
  | @tokens texts =>
    have plain (text : String) : (Track.boxOf .token text : Track α).margins = [] := rfl
    rw [Track.margins_eq]
    simp [Track.choiceOf, Track.margins?, Track.children, List.flatMap_map, plain]
  | _ => rfl

/-- All definitions that are drawn have the margins of their rules. -/
theorem Draws.margins {place : Place} {before after : Option Nesting} {exprs : List Expr}
    {tracks : List (Track α)} (draws : Draws grammar place before exprs tracks after) :
    ∀ track ∈ tracks, ∀ margins ∈ track.margins, OfRule grammar margins := by
  induction draws with
  | nil => exact nofun
  | cons first others firstOfRules othersOfRules =>
    exact List.forall_mem_cons.mpr ⟨firstOfRules _ (.head _), othersOfRules⟩
  | leaf leaf =>
    refine List.forall_mem_singleton.mpr ?_
    rw [leaf.margins]
    exact nofun
  | sequence parts inductionHypothesis =>
    exact List.forall_mem_singleton.mpr (Track.forall_margins nofun inductionHypothesis)
  | choice parts inductionHypothesis =>
    exact List.forall_mem_singleton.mpr (Track.forall_margins nofun inductionHypothesis)
  | list parts inductionHypothesis =>
    exact List.forall_mem_singleton.mpr (Track.forall_margins nofun inductionHypothesis)
  | quantified part inductionHypothesis =>
    refine List.forall_mem_singleton.mpr ?_
    rw [Track.margins_quantifier]
    exact inductionHypothesis _ (.head _)
  | box => exact List.forall_mem_singleton.mpr nofun
  | splice found splices free body inductionHypothesis => exact inductionHypothesis
  -- A panel is the only track with margins of its own, and it is that of the rule that was found.
  | panel found unit claim body inductionHypothesis =>
    exact List.forall_mem_singleton.mpr (Track.forall_margins
      (List.forall_mem_singleton.mpr ⟨_, (RuleSet.get?_eq_some found).1, rfl⟩) inductionHypothesis)

/-- All definitions in the diagram of a rule have the margins of their rules, whatever the nesting
is. -/
theorem margins_diagram (nesting : Option Nesting) {rule : Rule} (member : rule ∈ grammar.rules) :
    ∀ margins ∈ (grammar.diagram nesting rule).1.margins (α := α), OfRule grammar margins := by
  obtain ⟨item, after, drawn, draws⟩ := grammar.diagram_drawn (α := α) nesting rule
  rw [drawn]
  refine Track.forall_margins nofun (List.forall_mem_singleton.mpr ?_)
  exact Track.forall_margins (List.forall_mem_singleton.mpr ⟨rule, member, rfl⟩) draws.margins

end Panels

end Building

/-- A number and the double that is nearest to it. -/
inductive Json.Nearest : Json → Float → Prop where
  | int {number : Int} {double : Float} (nearest : Double.ofInt? number = some double) :
      Nearest (.int number) double
  | real {number : Float} : Nearest (.real number) number

/-- The number zero, as an integer or as a double of either sign. -/
inductive Json.IsZero : Json → Prop where
  | int : IsZero (.int 0)
  | real {number : Float} (zero : Double.value? number = some 0) : IsZero (.real number)

/-- The double nearest to a number is zero exactly when the number is. -/
theorem Json.Nearest.beq_zero_iff {value : Json} {double : Float} (nearest : value.Nearest double) :
    (double == 0.0) = true ↔ value.IsZero := by
  rw [Double.beq_zero_iff]
  cases nearest with
  | int nearest =>
    rw [Double.value?_ofInt?_eq_zero nearest]
    exact ⟨fun zero => zero ▸ .int, fun zero => by cases zero; rfl⟩
  | real => exact ⟨.real, fun zero => by cases zero; assumption⟩

/-- A number that is set is read as the double nearest to it. -/
theorem Json.Nearest.readMargin {members : Entries Json} {setting : String} {value : Json}
    {double : Float} (nearest : value.Nearest double)
    (given : members.get? setting = some value) (rule : String) :
    Validation.readMargin rule members setting = .ok (some double) := by
  rw [Validation.readMargin, given]
  cases nearest with
  | int nearest => simp [nearest]
  | real => rfl

/-- The margin that a setting gives to a definition. -/
inductive GivesMargin (members : Entries Json) (setting : String) : Float → Prop where
  /-- Nothing is set. -/
  | usual (unset : Validation.Unset members setting) :
      GivesMargin members setting Grid.definitionMargin
  /-- Zero is set, which counts as if nothing were. -/
  | zero {value} (given : members.get? setting = some value) (zero : value.IsZero) :
      GivesMargin members setting Grid.definitionMargin
  /-- Another number is set. -/
  | number {value double} (given : members.get? setting = some value)
      (nearest : value.Nearest double) (nonzero : ¬ value.IsZero) :
      GivesMargin members setting double

/-- A number that is set gives the double nearest to it, or the usual margin in the place of
zero. -/
theorem Json.Nearest.givesMargin {members : Entries Json} {setting : String} {value : Json}
    {double : Float} (nearest : value.Nearest double)
    (given : members.get? setting = some value) :
    GivesMargin members setting (Building.marginOf (some double)) := by
  rw [Building.marginOf]
  by_cases zero : value.IsZero
  · rw [if_pos (nearest.beq_zero_iff.mpr zero)]
    exact .zero given zero
  · rw [if_neg (mt nearest.beq_zero_iff.mp zero)]
    exact .number given nearest zero

/-- What is read from a setting becomes the margin that the setting gives. -/
theorem givesMargin_of_readMargin {rule : String} {members : Entries Json} {setting : String}
    {margin : Option Float} (read : Validation.readMargin rule members setting = .ok margin) :
    GivesMargin members setting (Building.marginOf margin) := by
  rw [Validation.readMargin] at read
  cases given : members.get? setting with
  | none =>
    rw [given] at read
    obtain rfl := Except.ok.inj read
    refine .usual fun value found => ?_
    rw [given] at found
    contradiction
  | some value =>
    rw [given] at read
    cases value with
    | null =>
      obtain rfl := Except.ok.inj read
      exact .usual fun value found => (Option.some.inj (given.symm.trans found)).symm
    | real number =>
      obtain rfl := Except.ok.inj read
      exact Json.Nearest.real.givesMargin given
    | int number =>
      cases nearest : Double.ofInt? number with
      | none => simp [nearest] at read
      | some double =>
        simp only [nearest] at read
        obtain rfl := Except.ok.inj read
        exact (Json.Nearest.int nearest).givesMargin given
    | _ => contradiction

/-- The margins of rules are those that their settings give. -/
theorem givesMargin_of_validate {description : Entries Json} {delist : Bool} {grammar : RuleSet}
    (valid : validate description delist = .ok grammar) (distinct : description.Distinct)
    {margins : String × Float × Float} (ofRule : Building.OfRule grammar margins) :
    ∃ members, description.get? margins.1 = some (.obj members) ∧
      GivesMargin members "left" margins.2.1 ∧ GivesMargin members "right" margins.2.2 := by
  obtain ⟨rule, member, rfl⟩ := ofRule
  obtain ⟨⟨name, value⟩, listed, reads⟩ :=
    Validation.exists_left_of_mem (reads_of_validate valid) member
  cases reads with
  | rule body inlineFlags railroadFlag leftMargin rightMargin =>
    exact ⟨_, (Entries.get?_eq_some_iff distinct).mpr listed,
      givesMargin_of_readMargin leftMargin, givesMargin_of_readMargin rightMargin⟩

/-- Whether the margins of all definitions in a tree are those that the settings of their rules
give. -/
def Track.MarginsGiven (description : Entries Json) (tree : Track Float) : Prop :=
  ∀ extent name left right item, .definition extent name left right item ∈ tree.walk →
    ∃ members, description.get? name = some (.obj members) ∧
      GivesMargin members "left" left ∧ GivesMargin members "right" right

/-- Margins that are set reach the definitions: in the diagram of every rule of an accepted
description, in every stack of such diagrams and whatever is nested in them, each definition has the
doubles nearest to the numbers beside the body of its rule, and the usual margin where there is none
or null. Zero alone does not: the usual margin stands in its place. -/
theorem margins_reach_definitions {description : Entries Json} {delist : Bool} {grammar : RuleSet}
    (distinct : description.Distinct) (valid : validate description delist = .ok grammar)
    (nesting : Option Nesting) :
    (∀ rule ∈ grammar.rules, (grammar.diagram nesting rule).1.MarginsGiven description) ∧
      ∀ rules ⊆ grammar.rules,
        (Track.stackOf (grammar.diagramsOf nesting rules).1).MarginsGiven description := by
  have given {tree : Track Float}
      (ofRules : ∀ margins ∈ tree.margins, Building.OfRule grammar margins) :
      tree.MarginsGiven description :=
    fun _ _ _ _ _ met => givesMargin_of_validate valid distinct (ofRules _ (Track.mem_margins met))
  refine ⟨fun rule member => given (Building.margins_diagram nesting member), ?_⟩
  refine fun rules members => given (Track.forall_margins nofun ?_)
  exact RuleSet.forall_diagramsOf (fun _ _ => Building.margins_diagram _) nesting members

/-- The settings of a rule with a wide margin on its left. -/
def outerMembers : Entries Json :=
  [("sequence", .arr [.str "inner"]), ("left", .int 2), ("right", .null)]

/-- The settings of a rule with a narrow margin on its right. -/
def innerMembers : Entries Json :=
  [("token", .str "x"), ("inline", .bool false), ("right", .real 0.25)]

/-- A rule with a wide margin that refers to one with a narrow margin. -/
def framed : Entries Json :=
  [("outer", .obj outerMembers), ("inner", .obj innerMembers)]

/-- The rule with the wide margin. -/
def framedOuter : Rule :=
  ⟨"outer", .sequence [.reference "inner"], none, true,
    some (Double.ofBits false 0x4000000000000000), none, ["inner"], []⟩

/-- The rule with the narrow margin. -/
def framedInner : Rule :=
  ⟨"inner", .token "x", some false, true, none, some 0.25, [], ["outer"]⟩

/-- The grammar of the two rules with margins. -/
def framedGrammar : RuleSet :=
  ⟨[framedOuter, framedInner]⟩

/-- What is accepted of the rules with margins. -/
theorem validate_framed : validate framed false = .ok framedGrammar := by
  have outer : Validation.Reads ⟨"outer", framed.names, false⟩ true [.obj outerMembers]
      [framedOuter.body] ["inner"] :=
    .sequence rfl rfl (.cons (.reference (by decide)) .nil)
  have left : Validation.readMargin "outer" outerMembers "left" = .ok framedOuter.left :=
    (Json.Nearest.int (by rfl)).readMargin rfl "outer"
  have single : Validation.tagged innerMembers = [("token", .str "x")] := rfl
  have tag : Tag.ofWord? "token" = some (.leaf .token) := rfl
  have inner : Validation.Reads ⟨"inner", framed.names, false⟩ true [.obj innerMembers]
      [framedInner.body] [] := .leaf single tag
  have right : Validation.readMargin "inner" innerMembers "right" = .ok framedInner.right :=
    Json.Nearest.real.readMargin rfl "inner"
  refine validate_eq_ok.mpr ⟨?_, List.forall_mem_cons.mpr ⟨rfl, List.forall_mem_singleton.mpr rfl⟩⟩
  exact .cons (.rule outer rfl rfl left rfl _) (.cons (.rule inner rfl rfl rfl right _) .nil)

/-- The rule with the narrow margin has its panel inside that of the other one. -/
theorem diagram_framed :
    ((framedGrammar.diagram (some (.start [] "outer")) framedOuter).1 : Track Float) =
      .ruleOf (Building.panel framedOuter
        (.sequenceOf [Building.panel framedInner (.boxOf .token "x")])) := by
  have found : framedGrammar.get? "inner" = some framedInner := rfl
  have unit : framedInner.isUnit = true := rfl
  have openable : "inner" ∈ (framedGrammar.topPlace framedOuter).openable :=
    .tail _ (.head _)
  have claim : (Nesting.start [] "outer").claim "inner" (some "outer") =
      (.definition, (Nesting.start [] "outer").opening "inner" (some "outer")) := rfl
  have context : (framedGrammar.topPlace framedOuter).context = "outer" := rfl
  have outer : framedOuter.body = .sequence [.reference "inner"] := rfl
  have inner : framedInner.body = .token "x" := rfl
  simp [RuleSet.diagram, outer, inner, Building.build, Building.buildAll, Building.buildReference,
    found, unit, openable, context, claim]

/-- Both margins are those that were set, though one definition is inside the other. -/
theorem framed_margins_reach_definitions :
    framed.Distinct ∧ validate framed false = .ok framedGrammar ∧
      ((framedGrammar.diagram (some (.start [] "outer")) framedOuter).1).MarginsGiven framed ∧
      (framedGrammar.diagram (some (.start [] "outer")) framedOuter).1.margins =
        [("outer", Building.marginOf framedOuter.left, (Grid.definitionMargin : Float)),
          ("inner", (Grid.definitionMargin : Float), Building.marginOf framedInner.right)] := by
  have distinct : framed.Distinct := by decide
  have margins := margins_reach_definitions distinct validate_framed (some (.start [] "outer"))
  refine ⟨distinct, validate_framed, margins.1 _ (.head _), ?_⟩
  rw [diagram_framed]
  rfl

/-- A rule with a margin of zero. -/
def flush : Entries Json :=
  [("a", .obj [("token", .str "x"), ("left", .int 0)])]

/-- The rule that was given no margin on its left. -/
def flushRule : Rule :=
  ⟨"a", .token "x", none, true, some (Double.ofBits false 0), none, [], []⟩

/-- The definition of a rule with a margin of zero has another margin in any diagram. -/
theorem flush_margin_not_reached :
    flush.Distinct ∧ validate flush false = .ok ⟨[flushRule]⟩ ∧
      flush.get? "a" = some (.obj [("token", .str "x"), ("left", .int 0)]) ∧
      ∃ zero, (Json.int 0).Nearest zero ∧
        ∀ nesting, ∃ extent left right item,
          .definition extent "a" left right item ∈
            (RuleSet.diagram ⟨[flushRule]⟩ nesting flushRule).1.walk ∧ left ≠ zero := by
  refine ⟨by decide, by cbv, rfl, Double.ofBits false 0, .int rfl, fun nesting => ?_⟩
  have usual : (Building.marginOf flushRule.left : Float) ≠ Double.ofBits false 0 := by decide
  exact ⟨_, _, _, _, .tail _ (.head _), usual⟩

end GrammarView
