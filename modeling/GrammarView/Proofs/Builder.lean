import GrammarView.Proofs.Drawings
import GrammarView.Proofs.Stepwise

/-!
# Builders

Building as it goes on step by step, in a builder that is used for one diagram after another. A
builder remembers the rules whose bodies it is in: it adds a name before it begins with a body, and
takes the last name away when it is done. Nothing bounds how far it goes into bodies, and nothing
keeps it from looking for a rule that does not exist. That it ends all the same, that it finds every
rule, and that it is left as it was, is what is proved here; what it builds are the diagrams of the
rules.
-/

namespace GrammarView

/-- A builder: the rules whose bodies it is in, the last one first, and the panels that have been
opened, if there are panels. -/
structure Builder where
  entered : List String
  nesting : Option Nesting

/-- What is done with a builder. It may go on forever, which gives nothing, or stop at a name of no
rule. -/
abbrev Work (β : Type) := StateT Builder (ExceptT UnknownRule Option) β

namespace Work

variable {β γ : Type}

/-- Whether work that is begun with a builder ends with a result, and leaves the builder as
given. -/
def Gives (work : Work β) (before : Builder) (result : β) (after : Builder) : Prop :=
  (work.run before).run = some (.ok (result, after))

/-- Work without a step ends at once. -/
theorem gives_pure {result final : β} {before after : Builder} :
    (pure result : Work β).Gives before final after ↔ final = result ∧ after = before :=
  Stepwise.gives_pure

/-- Work in two steps ends when both steps end. -/
theorem gives_bind {first : Work β} {next : β → Work γ} {before after : Builder} {final : γ} :
    (first >>= next).Gives before final after ↔
      ∃ result between, first.Gives before result between ∧
        (next result).Gives between final after :=
  Stepwise.gives_bind

/-- Work goes on with what its first step gives. -/
theorem Gives.bind {first : Work β} {next : β → Work γ} {before between after : Builder}
    {result : β} {final : γ} (begins : first.Gives before result between)
    (goesOn : (next result).Gives between final after) :
    (first >>= next).Gives before final after :=
  gives_bind.mpr ⟨result, between, begins, goesOn⟩

/-- Something is made of what work gives. -/
theorem Gives.map {work : Work β} {before after : Builder} {result : β}
    (gives : work.Gives before result after) (f : β → γ) :
    (work >>= fun result => pure (f result)).Gives before (f result) after :=
  gives.bind (gives_pure.mpr ⟨rfl, rfl⟩)

end Work

namespace Builder

/-- Goes into the body of a rule. -/
def enter (name : String) : Work PUnit :=
  modify fun builder => { builder with entered := name :: builder.entered }

/-- Comes out of the body that was entered last. -/
def leave : Work PUnit :=
  modify fun builder => { builder with entered := builder.entered.tail }

/-- The rule of a name. -/
def lookUp (grammar : RuleSet) (name : String) : Work Rule :=
  match grammar.get? name with
  | some rule => pure rule
  | none => throw ⟨name⟩

/-- Claims a unit from a definition. Without panels it is a box. -/
def claim (name context : String) : Work Expansion := do
  let builder ← get
  match builder.nesting with
  | none => return .box
  | some nesting =>
    let answer := nesting.claim name (some context)
    set { builder with nesting := some answer.2 }
    return answer.1

/-- How a reference to a rule is drawn inside a definition, if the rule is not being drawn. -/
def expansion (rule : Rule) (name context : String) : Work Expansion :=
  if rule.isUnit then claim name context else pure .splice

end Builder

namespace RuleSet

open Builder

variable {α : Type} [Scalar α]

mutual

/-- Draws an expression inside a definition and inside the body of a rule. -/
def expand (grammar : RuleSet) (context owner : String) (expr : Expr) : Work (Track α) :=
  match expr with
  | .token text => pure (.boxOf .token text)
  | .terminal text => pure (.boxOf .terminal text)
  | .aliased _ => pure (.boxOf .terminal owner)
  | .label text => pure (.boxOf .rule text)
  | .foreign _ kind => pure (.boxOf .unknown kind)
  | .tokens texts => pure (.choiceOf (texts.map (.boxOf .token)))
  | .sequence items => do
    let tracks ← grammar |>.expandAll context owner items
    return .sequenceOf tracks
  | .choice items => do
    let tracks ← grammar |>.expandAll context owner items
    return .choiceOf tracks
  | .list item separator => do
    let item ← grammar |>.refer context item
    let separator ← grammar |>.expand context owner separator
    return .list Track.unmeasured item separator
  | .quantified quantifier item => do
    let track ← grammar |>.expand context owner item
    return quantifier.track track
  | .reference name => grammar |>.refer context name
partial_fixpoint

/-- Draws expressions from the first to the last. -/
def expandAll (grammar : RuleSet) (context owner : String) (items : List Expr) :
    Work (List (Track α)) :=
  match items with
  | [] => pure []
  | item :: rest => do
    let track ← grammar |>.expand context owner item
    let tracks ← grammar |>.expandAll context owner rest
    return track :: tracks
partial_fixpoint

/-- Draws a reference. -/
def refer (grammar : RuleSet) (context name : String) : Work (Track α) := do
  let rule ← lookUp grammar name
  let expansion ← expansion rule name context
  if expansion = .definition then
    enter rule.name
    let track ← grammar |>.expand rule.name rule.name rule.body
    leave
    return Building.panel rule track
  else
    let builder ← get
    if expansion = .box ∨ name ∈ builder.entered then return Building.ruleBox name
    else
      enter name
      let track ← grammar |>.expand context name rule.body
      leave
      return track
partial_fixpoint

end

end RuleSet

namespace Builder

open RuleSet (expand expandAll refer)

variable {α : Type} [Scalar α]

/-- Builds the diagram of a rule. -/
def diagram (grammar : RuleSet) (rule : Rule) : Work (Track α) := do
  enter rule.name
  let track ← expand grammar rule.name rule.name rule.body
  leave
  return .ruleOf (Building.panel rule track)

section Steps

variable {grammar : RuleSet} {entered : List String} {before between after : Option Nesting}
  {context name : String} {rule : Rule} {track : Track α}

/-- What is done between entering a body and leaving it again leaves the bodies around it. -/
theorem gives_inside {β γ : Type} {work : Work β} {result : β}
    (gives : work.Gives ⟨name :: entered, before⟩ result ⟨name :: entered, after⟩) (f : β → γ) :
    (do enter name; let result ← work; leave; return f result : Work γ).Gives ⟨entered, before⟩
      (f result) ⟨entered, after⟩ := by
  have enters : (enter name).Gives ⟨entered, before⟩ ⟨⟩ ⟨name :: entered, before⟩ := rfl
  have leaves : leave.Gives ⟨name :: entered, after⟩ ⟨⟩ ⟨entered, after⟩ := rfl
  exact enters.bind (gives.bind (leaves.map _))

/-- A rule that exists is found. -/
theorem gives_lookUp (found : grammar.get? name = some rule) (builder : Builder) :
    (lookUp grammar name).Gives builder rule builder := by
  rw [lookUp, found]
  rfl

/-- Without panels a unit is a box. -/
theorem gives_expansion_apart (unit : rule.isUnit = true) :
    (expansion rule name context).Gives ⟨entered, none⟩ .box ⟨entered, none⟩ := by
  rw [expansion, if_pos unit]
  rfl

/-- Where there are panels a unit is what the answer to its claim says. -/
theorem gives_expansion_unit (unit : rule.isUnit = true) {before after : Nesting}
    {answer : Expansion} (claims : before.Claims name (some context) answer after) :
    (expansion rule name context).Gives ⟨entered, some before⟩ answer ⟨entered, some after⟩ := by
  rw [expansion, if_pos unit]
  have answered := claims.claim_eq
  change some (Except.ok ((before.claim name (some context)).1,
    Builder.mk entered (some (before.claim name (some context)).2))) = _
  rw [answered]

/-- A rule that is no unit is drawn by its body. -/
theorem gives_expansion_part (inner : rule.isUnit = false) (builder : Builder) :
    (expansion rule name context).Gives builder .splice builder := by
  rw [expansion, inner]
  rfl

/-- A reference is drawn as a box where a box is called for, and inside the body that it names. -/
theorem gives_refer_box {expansion : Expansion} (found : grammar.get? name = some rule)
    (expands : (Builder.expansion rule name context).Gives ⟨entered, before⟩ expansion
      ⟨entered, before⟩)
    (boxed : expansion = .box ∨ expansion = .splice ∧ name ∈ entered) :
    (refer grammar context name : Work (Track α)).Gives ⟨entered, before⟩ (Building.ruleBox name)
      ⟨entered, before⟩ := by
  have noPanel : expansion ≠ .definition := by
    rcases boxed with rfl | ⟨rfl, -⟩ <;> exact nofun
  have called : expansion = .box ∨ name ∈ entered := boxed.imp_right And.right
  rw [refer]
  refine (gives_lookUp found _).bind (expands.bind ?_)
  rw [if_neg noPanel]
  refine Work.gives_bind.mpr ⟨⟨entered, before⟩, _, rfl, ?_⟩
  rw [if_pos called]
  exact Work.gives_pure.mpr ⟨rfl, rfl⟩

/-- A reference is drawn by the body of its rule where that is not being drawn. -/
theorem gives_refer_splice (found : grammar.get? name = some rule)
    (expands : (expansion rule name context).Gives ⟨entered, before⟩ .splice ⟨entered, before⟩)
    (outside : name ∉ entered)
    (body : (expand grammar context name rule.body).Gives ⟨name :: entered, before⟩ track
      ⟨name :: entered, after⟩) :
    (refer grammar context name).Gives ⟨entered, before⟩ track ⟨entered, after⟩ := by
  have fresh : ¬ (Expansion.splice = .box ∨ name ∈ entered) := not_or.mpr ⟨nofun, outside⟩
  rw [refer]
  refine (gives_lookUp found _).bind (expands.bind ?_)
  rw [if_neg nofun]
  refine Work.gives_bind.mpr ⟨⟨entered, before⟩, _, rfl, ?_⟩
  rw [if_neg fresh]
  exact gives_inside body id

/-- A reference is drawn by the panel of its rule where the panel has been claimed. -/
theorem gives_refer_panel (found : grammar.get? name = some rule)
    (expands : (expansion rule name context).Gives ⟨entered, before⟩ .definition ⟨entered, between⟩)
    (body : (expand grammar name name rule.body).Gives ⟨name :: entered, between⟩ track
      ⟨name :: entered, after⟩) :
    (refer grammar context name).Gives ⟨entered, before⟩ (Building.panel rule track)
      ⟨entered, after⟩ := by
  obtain ⟨-, rfl⟩ := RuleSet.get?_eq_some found
  rw [refer]
  refine (gives_lookUp found _).bind (expands.bind ?_)
  rw [if_pos rfl]
  exact gives_inside body (Building.panel rule)

/-- Expressions are drawn one after the other. -/
theorem gives_expandAll_cons {owner : String} {item : Expr} {rest : List Expr}
    {tracks : List (Track α)} {before after : Builder} :
    (expandAll grammar context owner (item :: rest)).Gives before tracks after ↔
      ∃ track others between, (expand grammar context owner item).Gives before track between ∧
        (expandAll grammar context owner rest).Gives between others after ∧
        tracks = track :: others := by
  rw [expandAll, Work.gives_bind]
  simp only [Work.gives_bind, Work.gives_pure]
  constructor
  · rintro ⟨track, between, first, others, _, rest, rfl, rfl⟩
    exact ⟨track, others, between, first, rest, rfl⟩
  · rintro ⟨track, others, between, first, rest, rfl⟩
    exact ⟨track, between, first, others, after, rest, rfl, rfl⟩

/-- One expression is drawn as expressions one after the other are. -/
theorem gives_expandAll_singleton {owner : String} {item : Expr} {before after : Builder} :
    (expandAll grammar context owner [item]).Gives before [track] after ↔
      (expand grammar context owner item).Gives before track after := by
  rw [gives_expandAll_cons]
  constructor
  · rintro ⟨_, others, between, first, rest, ⟨⟩⟩
    rw [expandAll, Work.gives_pure] at rest
    exact rest.2 ▸ first
  · intro first
    exact ⟨track, [], after, first, by rw [expandAll, Work.gives_pure]; exact ⟨rfl, rfl⟩, rfl⟩

end Steps

end Builder

namespace Building

variable {α : Type} [Scalar α] {grammar : RuleSet}

/-- Whether the bodies that may be spliced at a place are those that a builder is not in. -/
structure Place.Remembers (place : Place) (grammar : RuleSet) (entered : List String) : Prop where
  distinct : place.spliceable.Nodup
  free : ∀ name ∈ grammar.names, name ∈ place.spliceable ↔ name ∉ entered

/-- Inside a further body the builder remembers that body too. -/
theorem Place.Remembers.erase {place inner : Place} {entered : List String} {name : String}
    (remembers : place.Remembers grammar entered)
    (inside : inner.spliceable = place.spliceable.erase name) :
    inner.Remembers grammar (name :: entered) where
  distinct := inside ▸ remembers.distinct.erase name
  free := by
    intro other known
    rw [inside, remembers.distinct.mem_erase_iff, remembers.free other known, List.mem_cons, not_or]

/-- What is spliced according to the relation is spliced by a builder. -/
theorem Splices.gives_expansion {place : Place} {name : String} {rule : Rule}
    {nesting : Option Nesting} (splices : Splices place name rule nesting) (entered : List String) :
    (Builder.expansion rule name place.context).Gives ⟨entered, nesting⟩ .splice
      ⟨entered, nesting⟩ := by
  cases splices with
  | part inner => exact Builder.gives_expansion_part inner _
  | untied unit claim => exact Builder.gives_expansion_unit unit claim

/-- A box according to the relation is drawn by a builder, if it is the box of a rule. -/
theorem Boxed.gives {place : Place} {name : String} {nesting : Option Nesting}
    (boxed : Boxed grammar place name nesting) (known : name ∈ grammar.names)
    {entered : List String} (remembers : place.Remembers grammar entered) :
    (RuleSet.refer grammar place.context name : Work (Track α)).Gives ⟨entered, nesting⟩
      (ruleBox name) ⟨entered, nesting⟩ := by
  cases boxed with
  | unknown missing =>
    obtain ⟨rule, found⟩ := RuleSet.exists_get? known
    exact absurd (found.symm.trans missing) nofun
  | apart found unit =>
    exact Builder.gives_refer_box found (Builder.gives_expansion_apart unit) (.inl rfl)
  | claimed found unit claim =>
    exact Builder.gives_refer_box found (Builder.gives_expansion_unit unit claim) (.inl rfl)
  | recursive found splices entered =>
    have inside : name ∈ _ := not_not.mp (mt (remembers.free name known).mpr entered)
    exact Builder.gives_refer_box found (splices.gives_expansion _) (.inr ⟨rfl, inside⟩)

/-- A builder draws what the relation says, and comes out of every body that it went into. -/
theorem Draws.gives {place : Place} {before after : Option Nesting} {exprs : List Expr}
    {tracks : List (Track α)} (draws : Draws grammar place before exprs tracks after)
    (closed : ∀ rule ∈ grammar.rules, ∀ name ∈ rule.body.targets, name ∈ grammar.names)
    (known : ∀ name ∈ exprs.flatMap Expr.targets, name ∈ grammar.names) {entered : List String}
    (remembers : place.Remembers grammar entered) :
    (RuleSet.expandAll grammar place.context place.owner exprs).Gives ⟨entered, before⟩ tracks
      ⟨entered, after⟩ := by
  have body {name : String} {rule : Rule} (found : grammar.get? name = some rule) :
      ∀ name ∈ [rule.body].flatMap Expr.targets, name ∈ grammar.names := by
    rw [List.flatMap_singleton]
    exact closed rule (RuleSet.get?_eq_some found).1
  induction draws generalizing entered with
  | nil =>
    rw [RuleSet.expandAll]
    exact Work.gives_pure.mpr ⟨rfl, rfl⟩
  | cons first others firstGives othersGives =>
    rw [List.flatMap_cons, List.forall_mem_append] at known
    have begins := firstGives (by simpa using known.1) remembers
    have goesOn := othersGives known.2 remembers
    exact Builder.gives_expandAll_cons.mpr
      ⟨_, _, _, Builder.gives_expandAll_singleton.mp begins, goesOn, rfl⟩
  | leaf leaf =>
    rw [Builder.gives_expandAll_singleton]
    cases leaf <;> rw [RuleSet.expand] <;> exact Work.gives_pure.mpr ⟨rfl, rfl⟩
  | sequence parts inductionHypothesis =>
    rw [Builder.gives_expandAll_singleton, RuleSet.expand]
    exact (inductionHypothesis (by simpa using known) remembers).map _
  | choice parts inductionHypothesis =>
    rw [Builder.gives_expandAll_singleton, RuleSet.expand]
    exact (inductionHypothesis (by simpa using known) remembers).map _
  | list parts inductionHypothesis =>
    have gives := inductionHypothesis (by simpa using known) remembers
    obtain ⟨_, _, _, begins, goesOn, ⟨⟩⟩ := Builder.gives_expandAll_cons.mp gives
    rw [Builder.gives_expandAll_singleton] at goesOn ⊢
    rw [RuleSet.expand] at begins
    rw [RuleSet.expand]
    exact begins.bind (goesOn.map _)
  | quantified part inductionHypothesis =>
    have gives := inductionHypothesis (by simpa using known) remembers
    rw [Builder.gives_expandAll_singleton] at gives ⊢
    rw [RuleSet.expand]
    exact gives.map _
  | box boxed =>
    rw [Builder.gives_expandAll_singleton, RuleSet.expand]
    exact boxed.gives (known _ (by simp)) remembers
  | splice found splices free holds inductionHypothesis =>
    have gives := inductionHypothesis (body found) (remembers.erase rfl)
    rw [Builder.gives_expandAll_singleton] at gives ⊢
    rw [RuleSet.expand]
    have outside := (remembers.free _ (RuleSet.mem_names_of_get? found)).mp free
    exact Builder.gives_refer_splice found (splices.gives_expansion _) outside gives
  | panel found unit claim holds inductionHypothesis =>
    have gives := inductionHypothesis (body found) (remembers.erase rfl)
    rw [Builder.gives_expandAll_singleton] at gives ⊢
    rw [RuleSet.expand]
    exact Builder.gives_refer_panel found (Builder.gives_expansion_unit unit claim) gives

end Building

namespace Builder

variable {α : Type} [Scalar α] {grammar : RuleSet} {entered : List String}
  {nesting : Option Nesting}

/-- A builder builds the panel of a rule around what is built for its body, at a place that knows
the bodies which the builder is in. -/
theorem gives_diagram (rule : Rule) {place : Building.Place}
    (context : place.context = rule.name) (owner : place.owner = rule.name)
    (remembers : place.Remembers grammar (rule.name :: entered))
    (covered : place.Covered grammar nesting)
    (closed : ∀ rule ∈ grammar.rules, ∀ name ∈ rule.body.targets, name ∈ grammar.names)
    (member : rule ∈ grammar.rules) :
    (diagram grammar rule : Work (Track α)).Gives ⟨entered, nesting⟩
      (.ruleOf (Building.panel rule (Building.build grammar place nesting rule.body).1))
      ⟨entered, (Building.build grammar place nesting rule.body : Building.Built (Track α)).2⟩ := by
  have known : ∀ name ∈ [rule.body].flatMap Expr.targets, name ∈ grammar.names := by
    simpa using closed rule member
  have drawn : Building.Draws grammar place nesting [rule.body] _ _ :=
    Building.draws_build (α := α) grammar place nesting rule.body covered
  have gives := drawn.gives closed known remembers
  rw [context, owner] at gives
  exact gives_inside (gives_expandAll_singleton.mp gives) _

end Builder

/-- What holds of builders for the rules of a grammar. -/
structure Builder.Reliable (α : Type) [Scalar α] (grammar : RuleSet) : Prop where
  /-- Building ends, whatever bodies the builder is in and whatever panels it has opened, and leaves
  the builder in the same bodies. -/
  ends : ∀ rule ∈ grammar.rules, ∀ entered nesting, ∃ (diagram : Track α) (after : Option Nesting),
    (Builder.diagram grammar rule).Gives ⟨entered, nesting⟩ diagram ⟨entered, after⟩
  /-- A builder that is in no body builds the diagram of the rule. -/
  builds : ∀ rule ∈ grammar.rules, ∀ nesting,
    (Builder.diagram grammar rule).Gives ⟨[], nesting⟩
      (grammar.diagram nesting rule : Building.Built (Track α)).1
      ⟨[], (grammar.diagram nesting rule : Building.Built (Track α)).2⟩
  /-- The body of no rule is spliced inside a splice of the same rule. -/
  once : ∀ rule ∈ grammar.rules, ∀ nesting name, ∀ outer body part again : Building.Drawing α,
    (grammar.drawing nesting rule).Reaches grammar outer → outer.Splices grammar name body →
    body.Reaches grammar part → ¬ part.Splices grammar name again
  /-- Without panels one builder builds for any rules, in any order and any number of times, what it
  builds for each of them by itself. -/
  series : ∀ rules : List Rule, rules ⊆ grammar.rules →
    (rules.mapM (Builder.diagram grammar)).Gives ⟨[], none⟩
      (rules.map fun rule => (grammar.diagram none rule : Building.Built (Track α)).1) ⟨[], none⟩
  /-- The diagrams of all rules that have one are the diagrams of these rules, in order. -/
  all : (grammar.diagrams none : Building.Built (List (Track α))).1
    = grammar.diagrammed.map fun rule => (grammar.diagram none rule).1

/-- Building with the rules of an accepted description ends, however the rules refer to each other,
and one builder does for all of them. -/
theorem building_ends {α : Type} [Scalar α] {description : Entries Json} {delist : Bool}
    {grammar : RuleSet} (distinct : description.Distinct)
    (valid : validate description delist = .ok grammar) : Builder.Reliable α grammar := by
  have differ : grammar.names.Nodup := names_of_validate valid ▸ distinct
  have closed : ∀ rule ∈ grammar.rules, ∀ name ∈ rule.body.targets, name ∈ grammar.names :=
    fun _ member => RuleSet.known_of_validate valid member
  have builds (rule : Rule) (member : rule ∈ grammar.rules) (nesting : Option Nesting) :
      (Builder.diagram grammar rule).Gives ⟨[], nesting⟩
        (grammar.diagram nesting rule : Building.Built (Track α)).1
        ⟨[], (grammar.diagram nesting rule : Building.Built (Track α)).2⟩ := by
    have remembers : (grammar.topPlace rule).Remembers grammar [rule.name] :=
      ⟨differ.erase rule.name, fun name known => by
        simp [RuleSet.topPlace, differ.mem_erase_iff, known]⟩
    exact Builder.gives_diagram rule rfl rfl remembers
      (Building.covered_topPlace grammar rule nesting) closed member
  constructor
  case ends =>
    intro rule member entered nesting
    let place : Building.Place := ⟨rule.name, rule.name, grammar.names,
      grammar.names.filter (· ∉ rule.name :: entered)⟩
    have remembers : place.Remembers grammar (rule.name :: entered) :=
      ⟨differ.filter _, fun name known => by simp [place, known]⟩
    have covered : place.Covered grammar nesting := fun _ _ _ known away => absurd known away
    exact ⟨_, _, Builder.gives_diagram rule rfl rfl remembers covered closed member⟩
  case builds => exact builds
  case once =>
    intro rule member nesting name outer body part again reaches splices further
    have spliceable : outer.place.spliceable.Nodup :=
      (differ.erase rule.name).sublist reaches.sublist
    exact splices.not_again spliceable further
  case series =>
    intro rules subset
    induction rules with
    | nil => exact Work.gives_pure.mpr ⟨rfl, rfl⟩
    | cons rule rest inductionHypothesis =>
      obtain ⟨member, others⟩ := List.cons_subset.mp subset
      have first := builds rule member none
      rw [grammar.diagram_apart] at first
      rw [List.mapM_cons]
      exact first.bind ((inductionHypothesis others).map _)
  case all => rw [grammar.diagrams_eq_map]

/-- Sums of factors that hold sums again, and go on with themselves. -/
def nestedSums : Entries Json :=
  [("sum", .obj [("list", .str "factor"), ("separator", .obj [("token", .str "+")])]),
    ("factor", .obj [("sequence", .arr [.obj [("token", .str "(")], .str "sum", .str "factor",
      .obj [("token", .str ")")]])])]

/-- The grammar of sums of factors. -/
def nestedSumsGrammar : RuleSet :=
  ⟨[⟨"sum", .list "factor" (.token "+"), none, true, none, none, ["factor"], ["factor"]⟩,
    ⟨"factor", .sequence [.token "(", .reference "sum", .reference "factor", .token ")"], none,
      true, none, none, ["sum", "factor"], ["sum", "factor"]⟩]⟩

/-- Sums, which are drawn inside each other, are built. -/
theorem building_nested_sums_ends :
    nestedSums.Distinct ∧ validate nestedSums false = .ok nestedSumsGrammar ∧
      Builder.Reliable Rat nestedSumsGrammar := by
  have distinct : nestedSums.Distinct := by simp [Entries.Distinct, Entries.names, nestedSums]
  have valid : validate nestedSums false = .ok nestedSumsGrammar := by cbv
  exact ⟨distinct, valid, building_ends distinct valid⟩

end GrammarView
