import GrammarView.Diagram.Nesting
import GrammarView.Diagram.Track
import GrammarView.Grammar.RuleSet

/-!
# From rules to tracks

Builds the track of a rule. A reference is drawn in one of three ways: as a box with the name of
the rule, by the body of the rule in its place, or as a panel with the definition of the rule,
which happens only in composite diagrams. A body is never spliced into itself, and a definition is
never opened inside itself, so building ends however the rules refer to each other.
-/

namespace GrammarView

namespace Rule

/-- Whether a diagram shows a rule in the place of its references; none leaves it to its usage. A
rule without a diagram of its own always is. -/
def drawnInline (rule : Rule) : Option Bool :=
  if rule.railroad then rule.inline else some true

/-- Whether a rule is drawn as a unit, by a box or a panel. -/
def isUnit (rule : Rule) : Bool :=
  rule.drawnInline == some false

/-- Whether a rule gets a diagram of its own among the diagrams of all rules: one that may have a
diagram, and is drawn as a unit or is used by no other rule. -/
def isDiagrammed (rule : Rule) : Bool :=
  rule.railroad && (rule.isUnit || !rule.isUsedElsewhere)

end Rule

/-- The rules that get a diagram of their own. -/
def RuleSet.diagrammed (grammar : RuleSet) : List Rule :=
  grammar.rules.filter Rule.isDiagrammed

namespace Building

variable {α : Type} [Scalar α]

/-- A margin of a definition; none and zero stand for the usual margin. -/
def marginOf : Option Float → α
  | none => Grid.definitionMargin
  | some margin => if margin == 0.0 then Grid.definitionMargin else Scalar.ofDouble margin

/-- The panel of a rule around the track of its body. -/
def panel (rule : Rule) (item : Track α) : Track α :=
  .definition Track.unmeasured rule.name (marginOf rule.left) (marginOf rule.right) item

/-- A box with the name of a rule. -/
def ruleBox (name : String) : Track α :=
  .boxOf .rule name

/-- Where a part stands: the definition that it is drawn in, the rule whose body it belongs to,
the rules that may still be opened as definitions here, and those whose bodies may still be
spliced here. -/
structure Place where
  context : String
  owner : String
  openable : List String
  spliceable : List String

/-- The place inside the definition of a rule that is opened here. -/
def Place.inDefinition (place : Place) (name : String) : Place :=
  ⟨name, name, place.openable.erase name, place.spliceable.erase name⟩

/-- The place inside the body of a rule that is spliced here. -/
def Place.inSplice (place : Place) (name : String) : Place :=
  { place with owner := name, spliceable := place.spliceable.erase name }

/-- Tracks with the nesting after they were built; there is a nesting only in composite
diagrams. -/
abbrev Built (α : Type) := α × Option Nesting

/-- Taking a name out of a list that holds it makes the list shorter. -/
theorem length_erase_lt {name : String} {names : List String} (member : name ∈ names) :
    (names.erase name).length < names.length := by
  have shorter := List.length_erase_of_mem member
  have positive := List.length_pos_of_mem member
  omega

mutual

/-- Builds the track of an expression. -/
def build (grammar : RuleSet) (place : Place) (nesting : Option Nesting) :
    Expr → Built (Track α)
  | .token text => (.boxOf .token text, nesting)
  | .terminal text => (.boxOf .terminal text, nesting)
  | .aliased _ => (.boxOf .terminal place.owner, nesting)
  | .label text => (.boxOf .rule text, nesting)
  | .foreign _ kind => (.boxOf .unknown kind, nesting)
  | .tokens texts => (.choiceOf (texts.map (.boxOf .token)), nesting)
  | .sequence items => (buildAll grammar place nesting items).map .sequenceOf id
  | .choice items => (buildAll grammar place nesting items).map .choiceOf id
  | .list item separator =>
    let (item, nesting) := buildReference grammar place nesting item
    let (separator, nesting) := build grammar place nesting separator
    (.list Track.unmeasured item separator, nesting)
  | .quantified .zeroOrOne item => (build grammar place nesting item).map .optionally id
  | .quantified .zeroOrMore item => (build grammar place nesting item).map .anyNumberOf id
  | .quantified .oneOrMore item => (build grammar place nesting item).map .repeatedly id
  | .reference name => buildReference grammar place nesting name
termination_by expr => (place.openable.length, place.spliceable.length, sizeOf expr)
decreasing_by
  all_goals
    apply Prod.Lex.right
    apply Prod.Lex.right
    simp only [Expr.sequence.sizeOf_spec, Expr.choice.sizeOf_spec, Expr.list.sizeOf_spec,
      Expr.quantified.sizeOf_spec, Expr.reference.sizeOf_spec]
    omega

/-- Builds the tracks of expressions from the first to the last. -/
def buildAll (grammar : RuleSet) (place : Place) (nesting : Option Nesting) :
    List Expr → Built (List (Track α))
  | [] => ([], nesting)
  | item :: rest =>
    let (track, nesting) := build grammar place nesting item
    let (tracks, nesting) := buildAll grammar place nesting rest
    (track :: tracks, nesting)
termination_by items => (place.openable.length, place.spliceable.length, sizeOf items)
decreasing_by
  all_goals
    exact Prod.Lex.right _ (Prod.Lex.right _ (by simp <;> omega))

/-- Builds the track of a reference. -/
def buildReference (grammar : RuleSet) (place : Place) (nesting : Option Nesting)
    (name : String) : Built (Track α) :=
  match grammar.get? name with
  | none => (ruleBox name, nesting)
  | some rule =>
    if rule.isUnit then
      match nesting with
      | none => (ruleBox name, none)
      | some nesting =>
        if name ∈ place.openable then
          match nesting.claim name (some place.context) with
          | (.definition, nesting) =>
            (build grammar (place.inDefinition name) (some nesting) rule.body).map (panel rule) id
          | (.box, nesting) => (ruleBox name, some nesting)
          | (.splice, nesting) =>
            if name ∈ place.spliceable then
              build grammar (place.inSplice name) (some nesting) rule.body
            else (ruleBox name, some nesting)
        else (ruleBox name, some nesting)
    else if name ∈ place.spliceable then
      build grammar (place.inSplice name) nesting rule.body
    else (ruleBox name, nesting)
termination_by (place.openable.length, place.spliceable.length, 0)
decreasing_by
  all_goals simp only [Place.inDefinition, Place.inSplice]
  · exact Prod.Lex.left _ _ (length_erase_lt (by assumption))
  · exact Prod.Lex.right _ (Prod.Lex.left _ _ (length_erase_lt (by assumption)))
  · exact Prod.Lex.right _ (Prod.Lex.left _ _ (length_erase_lt (by assumption)))

end

end Building

namespace RuleSet

variable {α : Type} [Scalar α]

/-- The place of the body of a rule in its own diagram. -/
def topPlace (grammar : RuleSet) (rule : Rule) : Building.Place :=
  ⟨rule.name, rule.name, grammar.names, grammar.names.erase rule.name⟩

/-- The diagram of a rule, with the nesting afterwards. -/
def diagram (grammar : RuleSet) (nesting : Option Nesting) (rule : Rule) :
    Building.Built (Track α) :=
  (Building.build grammar (grammar.topPlace rule) nesting rule.body).map
    (fun item => .ruleOf (Building.panel rule item)) id

/-- The diagrams of rules, one after the other. -/
def diagramsOf (grammar : RuleSet) (nesting : Option Nesting) :
    List Rule → Building.Built (List (Track α))
  | [] => ([], nesting)
  | rule :: rest =>
    let (track, nesting) := grammar.diagram nesting rule
    let (tracks, nesting) := grammar.diagramsOf nesting rest
    (track :: tracks, nesting)

/-- The diagrams of all rules that have one. -/
def diagrams (grammar : RuleSet) (nesting : Option Nesting) : Building.Built (List (Track α)) :=
  grammar.diagramsOf nesting grammar.diagrammed

end RuleSet

end GrammarView
