import GrammarView.Diagram.Building
import GrammarView.Proofs.Claims

/-!
# How expressions are drawn

The relation between expressions and their tracks, beside the building that computes them. The
relation says for every reference which of the three ways of drawing it applies and knows nothing
of the names that may still be opened; these only bound the building. Building draws as the
relation says wherever a rule that may not be opened any more has been opened before, and this
holds of every diagram.
-/

namespace GrammarView

/-- The track of a part with a quantifier. -/
def Quantifier.track {α : Type} [Scalar α] : Quantifier → Track α → Track α
  | .zeroOrOne => Track.optionally
  | .zeroOrMore => Track.anyNumberOf
  | .oneOrMore => Track.repeatedly

namespace Building

variable {α : Type} [Scalar α]

/-- The expressions that are drawn without drawing another one, inside the body of a rule. -/
inductive DrawsLeaf (owner : String) : Expr → Track α → Prop where
  | token {text} : DrawsLeaf owner (.token text) (.boxOf .token text)
  | terminal {text} : DrawsLeaf owner (.terminal text) (.boxOf .terminal text)
  | aliased {text} : DrawsLeaf owner (.aliased text) (.boxOf .terminal owner)
  | label {text} : DrawsLeaf owner (.label text) (.boxOf .rule text)
  | foreign {shown kind} : DrawsLeaf owner (.foreign shown kind) (.boxOf .unknown kind)
  | tokens {texts} : DrawsLeaf owner (.tokens texts) (.choiceOf (texts.map (.boxOf .token)))

/-- The rules whose references are drawn by their bodies: those that are no units, and the units
that a composite diagram ties to no definition. -/
inductive Splices (place : Place) (name : String) (rule : Rule) : Option Nesting → Prop where
  | part {nesting} (inner : rule.isUnit = false) : Splices place name rule nesting
  | untied {nesting : Nesting} (unit : rule.isUnit = true)
      (claim : nesting.Claims name (some place.context) .splice nesting) :
      Splices place name rule (some nesting)

/-- The references that are drawn as boxes. -/
inductive Boxed (grammar : RuleSet) (place : Place) (name : String) : Option Nesting → Prop where
  /-- There is no rule to draw. -/
  | unknown {nesting} (missing : grammar.get? name = none) : Boxed grammar place name nesting
  /-- A unit has its own diagram, and there are no panels. -/
  | apart {rule} (found : grammar.get? name = some rule) (unit : rule.isUnit = true) :
      Boxed grammar place name none
  /-- The unit has its panel elsewhere. -/
  | claimed {rule} {nesting : Nesting} (found : grammar.get? name = some rule)
      (unit : rule.isUnit = true)
      (claim : nesting.Claims name (some place.context) .box nesting) :
      Boxed grammar place name (some nesting)
  /-- The reference stands in the body that it would be replaced by. -/
  | recursive {rule nesting} (found : grammar.get? name = some rule)
      (splices : Splices place name rule nesting) (entered : name ∉ place.spliceable) :
      Boxed grammar place name nesting

/-- Expressions that stand one after the other with the tracks that they are drawn as, and the
nesting before and after. -/
inductive Draws (grammar : RuleSet) :
    Place → Option Nesting → List Expr → List (Track α) → Option Nesting → Prop where
  | nil {place nesting} : Draws grammar place nesting [] [] nesting
  | cons {place before between after item track items tracks}
      (first : Draws grammar place before [item] [track] between)
      (others : Draws grammar place between items tracks after) :
      Draws grammar place before (item :: items) (track :: tracks) after
  | leaf {place nesting item track} (leaf : DrawsLeaf place.owner item track) :
      Draws grammar place nesting [item] [track] nesting
  | sequence {place before after items tracks}
      (parts : Draws grammar place before items tracks after) :
      Draws grammar place before [.sequence items] [.sequenceOf tracks] after
  | choice {place before after items tracks}
      (parts : Draws grammar place before items tracks after) :
      Draws grammar place before [.choice items] [.choiceOf tracks] after
  | list {place before after item separator first second}
      (parts : Draws grammar place before [.reference item, separator] [first, second] after) :
      Draws grammar place before [.list item separator] [.list Track.unmeasured first second] after
  | quantified {place before after quantifier item track}
      (part : Draws grammar place before [item] [track] after) :
      Draws grammar place before [.quantified quantifier item] [quantifier.track track] after
  | box {place nesting name} (boxed : Boxed grammar place name nesting) :
      Draws grammar place nesting [.reference name] [ruleBox name] nesting
  | splice {place before after name rule track} (found : grammar.get? name = some rule)
      (splices : Splices place name rule before) (free : name ∈ place.spliceable)
      (body : Draws grammar (place.inSplice name) before [rule.body] [track] after) :
      Draws grammar place before [.reference name] [track] after
  | panel {place} {before opened : Nesting} {after name rule track}
      (found : grammar.get? name = some rule) (unit : rule.isUnit = true)
      (claim : before.Claims name (some place.context) .definition opened)
      (body : Draws grammar (place.inDefinition name) (some opened) [rule.body] [track] after) :
      Draws grammar place (some before) [.reference name] [panel rule track] after

/-- A nesting that holds everything which another one has opened. -/
inductive Extends : Option Nesting → Option Nesting → Prop where
  | apart : Extends none none
  | nested {before after : Nesting} (kept : before.opened.names ⊆ after.opened.names) :
      Extends (some before) (some after)

/-- Every nesting extends itself. -/
theorem Extends.refl : ∀ nesting, Extends nesting nesting
  | none => .apart
  | some _ => .nested (List.Subset.refl _)

/-- What extends an extension extends the first nesting. -/
theorem Extends.trans {before between after : Option Nesting} (first : Extends before between)
    (second : Extends between after) : Extends before after := by
  cases first with
  | apart => exact second
  | nested kept =>
    cases second with
    | nested further => exact .nested (List.Subset.trans kept further)

/-- Opening a panel extends the nesting. -/
theorem Extends.opening (nesting : Nesting) (name : String) (context : Option String) :
    Extends (some nesting) (some (nesting.opening name context)) := by
  refine .nested ?_
  simp

/-- Drawing closes no panel. -/
theorem Draws.extends {grammar : RuleSet} {place : Place} {before after : Option Nesting}
    {exprs : List Expr} {tracks : List (Track α)}
    (draws : Draws grammar place before exprs tracks after) : Extends before after := by
  induction draws with
  | nil | leaf | box => exact .refl _
  | cons first others firstExtends othersExtends => exact firstExtends.trans othersExtends
  | sequence parts inductionHypothesis => exact inductionHypothesis
  | choice parts inductionHypothesis => exact inductionHypothesis
  | list parts inductionHypothesis => exact inductionHypothesis
  | quantified part inductionHypothesis => exact inductionHypothesis
  | splice found splices free body inductionHypothesis => exact inductionHypothesis
  | panel found unit claim body inductionHypothesis =>
    cases claim with
    | first => exact (Extends.opening _ _ _).trans inductionHypothesis
    | home => exact (Extends.opening _ _ _).trans inductionHypothesis

/-- A place where every rule that may not be opened any more has been opened. -/
def Place.Covered (place : Place) (grammar : RuleSet) (nesting : Option Nesting) : Prop :=
  ∀ opened, nesting = some opened → ∀ name ∈ grammar.names, name ∉ place.openable →
    name ∈ opened.opened.names

/-- An extension keeps a place covered. -/
theorem Place.Covered.mono {place : Place} {grammar : RuleSet} {before after : Option Nesting}
    (covered : place.Covered grammar before) (further : Extends before after) :
    place.Covered grammar after := by
  rintro opened rfl name known closed
  cases further with
  | nested kept => exact kept (covered _ rfl name known closed)

/-- The place inside a definition that has just been opened is covered. -/
theorem Place.Covered.inDefinition {place : Place} {grammar : RuleSet} {nesting : Nesting}
    {name : String} (covered : place.Covered grammar (some nesting))
    (opened : name ∈ nesting.opened.names) :
    (place.inDefinition name).Covered grammar (some nesting) := by
  rintro _ ⟨⟩ other known closed
  by_cases same : other = name
  · exact same ▸ opened
  · exact covered nesting rfl other known fun member =>
      closed ((List.mem_erase_of_ne same).mpr member)

/-- Whether tracks have been built for expressions as the relation says, in a covered place. -/
def DrawsBuilt (grammar : RuleSet) (place : Place) (nesting : Option Nesting) (exprs : List Expr)
    (built : Built (List (Track α))) : Prop :=
  place.Covered grammar nesting → Draws grammar place nesting exprs built.1 built.2

/-- Building draws as the relation says. -/
theorem draws_build (grammar : RuleSet) (place : Place) (nesting : Option Nesting) (expr : Expr) :
    DrawsBuilt grammar place nesting [expr]
      ((build grammar place nesting expr : Built (Track α)).map ([·]) id) := by
  apply @build.induct α _ grammar
    (fun place nesting expr => DrawsBuilt grammar place nesting [expr]
      ((build grammar place nesting expr : Built (Track α)).map ([·]) id))
    (fun place nesting name => DrawsBuilt grammar place nesting [.reference name]
      ((buildReference grammar place nesting name : Built (Track α)).map ([·]) id))
    (fun place nesting items => DrawsBuilt grammar place nesting items
      (buildAll grammar place nesting items : Built (List (Track α))))
  case case1 | case2 | case3 | case4 | case5 | case6 =>
    intros
    intro covered
    simp only [build, Prod.map, id]
    exact .leaf (by constructor)
  case case7 =>
    intro place nesting items inductionHypothesis covered
    simp only [build, Prod.map, id]
    exact .sequence (inductionHypothesis covered)
  case case8 =>
    intro place nesting items inductionHypothesis covered
    simp only [build, Prod.map, id]
    exact .choice (inductionHypothesis covered)
  case case9 =>
    intro place nesting item separator first between firstBuilt second after secondBuilt
      itemDraws separatorDraws covered
    have itemDrawn := itemDraws covered
    simp only [firstBuilt, Prod.map, id] at itemDrawn
    have separatorDrawn := separatorDraws (covered.mono itemDrawn.extends)
    simp only [secondBuilt, Prod.map, id] at separatorDrawn
    simp only [build, firstBuilt, secondBuilt, Prod.map, id]
    exact .list (.cons itemDrawn (.cons separatorDrawn .nil))
  case case10 | case11 | case12 =>
    intro place nesting item inductionHypothesis covered
    simp only [build, Prod.map, id]
    exact .quantified (inductionHypothesis covered)
  case case13 =>
    intro place nesting name inductionHypothesis covered
    simp only [build]
    exact inductionHypothesis covered
  -- From here on a reference is built: to no rule, to a unit without panels, and to a unit by the
  -- answer to its claim.
  case case14 =>
    intro place nesting name missing covered
    simp only [buildReference, missing, Prod.map, id]
    exact .box (.unknown missing)
  case case15 =>
    intro place name rule found unit covered
    simp only [buildReference, found, unit, if_true, Prod.map, id]
    exact .box (.apart found unit)
  case case16 =>
    intro place name rule found unit nesting openable after claim inductionHypothesis covered
    simp only [buildReference, found, unit, if_true, openable, claim, Prod.map, id]
    have claims := Nesting.claims_of_claim claim
    refine .panel found unit claims (inductionHypothesis ?_)
    cases claims with
    | first | home =>
      exact (covered.mono (.opening nesting name _)).inDefinition (by simp)
  case case17 =>
    intro place name rule found unit nesting openable after claim covered
    simp only [buildReference, found, unit, if_true, openable, claim, Prod.map, id]
    cases Nesting.claims_of_claim claim with
    | again opened => exact .box (.claimed found unit (.again opened))
    | away fresh tied elsewhere => exact .box (.claimed found unit (.away fresh tied elsewhere))
  case case18 =>
    intro place name rule found unit nesting openable after claim spliceable inductionHypothesis
      covered
    simp only [buildReference, found, unit, if_true, openable, claim, spliceable]
    cases Nesting.claims_of_claim claim with
    | spliced fresh tied =>
      exact .splice found (.untied unit (.spliced fresh tied)) spliceable
        (inductionHypothesis covered)
  case case19 =>
    intro place name rule found unit nesting openable after claim entered covered
    simp only [buildReference, found, unit, if_true, openable, claim, entered, if_false,
      Prod.map, id]
    cases Nesting.claims_of_claim claim with
    | spliced fresh tied =>
      exact .box (.recursive found (.untied unit (.spliced fresh tied)) entered)
  -- A rule that may not be opened any more has its panel, so a claim on it would have been
  -- answered by a box.
  case case20 =>
    intro place name rule found unit nesting closed covered
    simp only [buildReference, found, unit, if_true, closed, if_false, Prod.map, id]
    have known := RuleSet.mem_names_of_get? found
    exact .box (.claimed found unit (.again (covered nesting rfl name known closed)))
  case case21 =>
    intro place nesting name rule found inner spliceable inductionHypothesis covered
    simp only [buildReference, found, inner, spliceable, if_true]
    exact .splice found (.part (Bool.not_eq_true _ ▸ inner)) spliceable
      (inductionHypothesis covered)
  case case22 =>
    intro place nesting name rule found inner entered covered
    simp only [buildReference, found, inner, if_false, entered, Prod.map, id]
    exact .box (.recursive found (.part (Bool.not_eq_true _ ▸ inner)) entered)
  case case23 =>
    intro place nesting covered
    simp only [buildAll]
    exact .nil
  case case24 =>
    intro place nesting item rest track between firstBuilt tracks after restBuilt itemDraws
      restDraws covered
    have itemDrawn := itemDraws covered
    simp only [firstBuilt, Prod.map, id] at itemDrawn
    have restDrawn := restDraws (covered.mono itemDrawn.extends)
    simp only [restBuilt] at restDrawn
    simp only [buildAll, firstBuilt, restBuilt]
    exact .cons itemDrawn restDrawn

/-- Where every rule may be opened, there is nothing that had to be opened before. -/
theorem covered_topPlace (grammar : RuleSet) (rule : Rule) (nesting : Option Nesting) :
    (grammar.topPlace rule).Covered grammar nesting :=
  fun _ _ _ known closed => absurd known closed

end Building

/-- The diagram of a rule is its panel around the track of its body. -/
theorem RuleSet.diagram_drawn {α : Type} [Scalar α] (grammar : RuleSet) (nesting : Option Nesting)
    (rule : Rule) :
    ∃ (item : Track α) (after : Option Nesting),
      grammar.diagram nesting rule = (.ruleOf (Building.panel rule item), after) ∧
        Building.Draws grammar (grammar.topPlace rule) nesting [rule.body] [item] after :=
  ⟨_, _, rfl, Building.draws_build grammar (grammar.topPlace rule) nesting rule.body
    (Building.covered_topPlace grammar rule nesting)⟩

/-- Something holds of the diagrams of several rules if it holds of the diagram of each, whatever the
nesting is that the diagrams before it have left. -/
theorem RuleSet.forall_diagramsOf {α : Type} [Scalar α] {grammar : RuleSet}
    {holds : Track α → Prop}
    (each : ∀ nesting, ∀ rule ∈ grammar.rules, holds (grammar.diagram nesting rule).1)
    (nesting : Option Nesting) {rules : List Rule} (members : rules ⊆ grammar.rules) :
    ∀ track ∈ (grammar.diagramsOf nesting rules).1, holds track := by
  induction rules generalizing nesting with
  | nil => exact nofun
  | cons rule rest inductionHypothesis =>
    obtain ⟨member, others⟩ := List.cons_subset.mp members
    exact List.forall_mem_cons.mpr ⟨each nesting rule member, inductionHypothesis _ others⟩

end GrammarView
