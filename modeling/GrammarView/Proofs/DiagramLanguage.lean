import GrammarView.Proofs.Drawn
import GrammarView.Proofs.Language

/-!
# What diagrams mean

A diagram is read as the words along its tracks. A box with the name of a rule stands for the words
of that rule, so the meaning of a diagram does not depend on which references were drawn as boxes,
as bodies or as panels: it is always the meaning of the rule.
-/

open scoped Computability

namespace GrammarView

namespace Track

variable {α : Type} (rules : String → Language Symbol)

mutual

/-- The words along a track, given the words of the rules that its boxes may name. Diagrams below
each other and tracks of no known kind have none. -/
def language : Track α → Language Symbol
  | .box _ .rule text => rules text
  | .box _ .token text => {[.token text]}
  | .box _ .terminal text => {[.terminal text]}
  | .box _ .unknown text => {[.foreign text]}
  | .sequence _ _ items => (languages items).prod
  | .choice _ _ optional items => (if optional then 1 else 0) + (languages items).sum
  | .stack _ _ _ => 0
  | .zeroOrOne _ item => 1 + item.language
  | .zeroOrMore _ item => item.language∗
  | .oneOrMore _ item => item.language * item.language∗
  | .list _ item separator => separated item.language separator.language
  | .definition _ _ _ _ item => item.language
  | .rule _ _ item => item.language
  | .unknown _ => 0

/-- The words along each of several tracks. -/
def languages : List (Track α) → List (Language Symbol)
  | [] => []
  | item :: rest => item.language :: languages rest

end

/-- The languages of several tracks are those of each. -/
theorem languages_eq_map (items : List (Track α)) :
    languages rules items = items.map (language rules) := by
  induction items with
  | nil => rfl
  | cons item rest inductionHypothesis => simp [languages, inductionHypothesis]

variable [Scalar α]

/-- A track that may be left out has the empty word besides its own. -/
theorem language_optionally (item : Track α) :
    item.optionally.language rules = 1 + item.language rules := by
  cases item with
  | choice extent gap optional items =>
    simp only [optionally, language, if_true]
    cases optional with
    | false => simp
    | true => rw [if_pos rfl, ← add_assoc, add_idem]
  | _ => rfl

/-- Any number of words that may be empty are any number of words. -/
theorem one_add_mul_kstar_one_add (words : Language Symbol) :
    (1 + words) * (1 + words)∗ = words∗ := by
  apply le_antisymm
  · have first : 1 + words ≤ words∗ := add_le one_le_kstar le_kstar
    calc (1 + words) * (1 + words)∗
      _ ≤ words∗ * words∗∗ := mul_le_mul' first (kstar_mono first)
      _ = words∗ := by rw [kstar_idem, kstar_mul_kstar]
  · calc words∗
      _ = 1 * words∗ := (one_mul _).symm
      _ ≤ (1 + words) * (1 + words)∗ := mul_le_mul' le_self_add (kstar_mono le_add_self)

/-- A track any number of times has any number of its words, whichever way it is drawn. -/
theorem language_anyNumberOf (item : Track α) :
    item.anyNumberOf.language rules = (item.language rules)∗ := by
  have looped (item : Track α) :
      item.optionally.repeatedly.language rules = (item.language rules)∗ := by
    rw [repeatedly, language, language_optionally, one_add_mul_kstar_one_add]
  cases item with
  | sequence | definition | choice => exact looped _
  | _ => rfl

/-- A part with a quantifier is drawn as the repetition that the quantifier says. -/
theorem language_quantifier (quantifier : Quantifier) (item : Track α) :
    (quantifier.track item).language rules = quantifier.language (item.language rules) := by
  cases quantifier with
  | zeroOrOne => exact language_optionally rules item
  | zeroOrMore => exact language_anyNumberOf rules item
  | oneOrMore => rfl

end Track

/-- An alias is read as a terminal with the name of its rule. -/
def aliasAsOwner (owner _text : String) : Symbol :=
  .terminal owner

namespace Building

variable {α : Type} [Scalar α] {grammar : RuleSet} {place : Place} {before after : Option Nesting}
  {exprs : List Expr} {tracks : List (Track α)}

/-- An expression that is drawn without drawing another one means what it is drawn as. -/
theorem DrawsLeaf.language {owner : String} {expr : Expr} {track : Track α}
    (leaf : DrawsLeaf owner expr track) (labelFree : Expr.Throughout Expr.NoLabel [expr])
    (rules : String → Language Symbol) :
    track.language rules = expr.language rules (aliasAsOwner owner) := by
  cases leaf with
  | @label text => exact absurd rfl (labelFree (.label text) (.head _) text)
  | @tokens texts =>
    simp only [Track.choiceOf, Track.language, Track.languages_eq_map, Expr.language, List.map_map]
    simp [Function.comp_def, Track.boxOf, Track.language]
  | _ => rfl

/-- The panel of a rule means the track inside it. -/
theorem language_panel (rules : String → Language Symbol) (rule : Rule) (item : Track α) :
    (panel rule item).language rules = item.language rules :=
  rfl

/-- Tracks mean what the expressions mean that they are drawn for. -/
theorem Draws.language (draws : Draws grammar place before exprs tracks after)
    (rulesLabelFree : grammar.LabelFree) (labelFree : Expr.Throughout Expr.NoLabel exprs) :
    tracks.map (Track.language (grammar.language aliasAsOwner))
      = exprs.map (Expr.language (grammar.language aliasAsOwner) (aliasAsOwner place.owner)) := by
  induction draws with
  | nil => rfl
  | cons first others firstHypothesis othersHypothesis =>
    obtain ⟨firstFree, othersFree⟩ := Expr.throughout_cons.mp labelFree
    have firstWords := List.singleton_inj.mp (firstHypothesis firstFree)
    rw [List.map_cons, List.map_cons, firstWords, othersHypothesis othersFree]
  | leaf leaf => rw [List.map_singleton, List.map_singleton, leaf.language labelFree]
  | sequence parts inductionHypothesis =>
    have words := inductionHypothesis (Expr.throughout_sequence.mp labelFree).2
    simp only [List.map_singleton, Track.sequenceOf, Track.language, Track.languages_eq_map,
      Expr.language, Expr.languages_eq_map, words]
  | choice parts inductionHypothesis =>
    have words := inductionHypothesis (Expr.throughout_choice.mp labelFree).2
    simp [Track.choiceOf, Track.language, Track.languages_eq_map, Expr.language,
      Expr.languages_eq_map, words]
  | list parts inductionHypothesis =>
    have words := inductionHypothesis (Expr.noLabel_list labelFree)
    obtain ⟨itemWords, separatorWords⟩ := List.cons.inj words
    rw [List.map_singleton, List.map_singleton, Track.language, Expr.language, itemWords,
      List.singleton_inj.mp separatorWords, Expr.language]
  | quantified part inductionHypothesis =>
    have words := inductionHypothesis (Expr.throughout_quantified.mp labelFree).2
    rw [List.map_singleton, List.map_singleton, Track.language_quantifier,
      List.singleton_inj.mp words, Expr.language]
  | box boxed => rfl
  -- The rule is the owner of its body, so its equation says what the body means here.
  | splice found splices free body inductionHypothesis =>
    rw [inductionHypothesis (rulesLabelFree.body found), List.map_singleton, List.map_singleton,
      Expr.language, RuleSet.language_of_get? aliasAsOwner found]
    rfl
  | panel found unit claim body inductionHypothesis =>
    have words := inductionHypothesis (rulesLabelFree.body found)
    rw [List.map_singleton, List.map_singleton, language_panel, List.singleton_inj.mp words,
      Expr.language, RuleSet.language_of_get? aliasAsOwner found]
    rfl

end Building

/-- The diagram of a rule means the rule, with any nesting and without one. -/
theorem diagram_language {α : Type} [Scalar α] {grammar : RuleSet} (labelFree : grammar.LabelFree)
    {name : String} {rule : Rule} (found : grammar.get? name = some rule)
    (nesting : Option Nesting) :
    (grammar.diagram nesting rule : Building.Built (Track α)).1.language
        (grammar.language aliasAsOwner)
      = grammar.language aliasAsOwner name := by
  obtain ⟨item, after, built, draws⟩ := grammar.diagram_drawn (α := α) nesting rule
  have words := List.singleton_inj.mp (draws.language labelFree (labelFree.body found))
  obtain ⟨-, rfl⟩ := RuleSet.get?_eq_some found
  calc (grammar.diagram nesting rule : Building.Built (Track α)).1.language
        (grammar.language aliasAsOwner)
    _ = item.language (grammar.language aliasAsOwner) := by
        rw [built]
        exact Building.language_panel _ rule item
    _ = rule.body.language (grammar.language aliasAsOwner) (aliasAsOwner rule.name) := words
    _ = grammar.language aliasAsOwner rule.name :=
        (RuleSet.language_of_get? aliasAsOwner found).symm

/-- A unit that is a list of another rule. -/
def sumRule : Rule :=
  ⟨"sum", .list "product" (.token "+"), some false, true, none, none, ["product"], ["factor"]⟩

/-- Sums of products, in which a factor is a sum again. -/
def sums : RuleSet :=
  ⟨[sumRule,
    ⟨"product", .sequence [.reference "factor", .quantified .zeroOrMore (.sequence
        [.tokens ["*", "/"], .reference "factor"])], none, true, none, none, ["factor"], ["sum"]⟩,
    ⟨"factor", .choice [.aliased "number", .sequence [.token "(", .reference "sum", .token ")"]],
      some false, true, none, none, ["sum"], ["product"]⟩]⟩

/-- The diagram of sums with a panel for the factors inside it means the sums. -/
theorem diagram_language_sums :
    sums.LabelFree ∧ sums.get? "sum" = some sumRule ∧
      (sums.diagram (some (Nesting.start [("factor", some "sum")] "sum")) sumRule :
          Building.Built (Track Float)).1.language (sums.language aliasAsOwner)
        = sums.language aliasAsOwner "sum" := by
  have labelFree : sums.LabelFree := by
    simp [RuleSet.LabelFree, sums, sumRule, Expr.Throughout, Expr.NoLabel, Expr.partsOfAll,
      Expr.parts]
  have found : sums.get? "sum" = some sumRule := rfl
  exact ⟨labelFree, found, diagram_language labelFree found _⟩

end GrammarView
