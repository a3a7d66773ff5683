import GrammarView.Proofs.Expressions
import GrammarView.Proofs.Tracks

/-!
# Panels of composite diagrams

What the nesting says about a composite diagram once it is built: the panels that have been opened
are the panels of the diagram in the order of a walk, each in the panel that it was opened in.

The invariant compares the nesting before and after some tracks. It is stated with the panels that
were open before, so that it can be joined from one track to the next.
-/

namespace GrammarView

namespace Building

/-- A unit that is tied to no definition and not spliced: it gets a panel where it is first met. -/
def Untied (grammar : RuleSet) (targets : Entries (Option String)) (name : String) : Prop :=
  (∃ rule, grammar.get? name = some rule ∧ rule.isUnit = true) ∧ targets.get? name = none

/-- A panel that a unit may get: inside a definition, and inside the one that it is tied to. -/
def MayOpen (grammar : RuleSet) (targets : Entries (Option String)) (name : String)
    (around : Option String) : Prop :=
  (∃ rule, grammar.get? name = some rule ∧ rule.isUnit = true) ∧
    ∃ definition, around = some definition ∧
      ∀ target, targets.get? name = some target → target = some definition

/-- Every box that calls for a panel comes after that panel, unless the panel is known. -/
def BoxesFollow (calls : String → Prop) (known : List String) (marks : List Track.Mark) : Prop :=
  ∀ before name after, marks = before ++ .box name :: after → calls name →
    name ∈ known ∨ .panel name ∈ before

variable {calls : String → Prop} {known : List String}

/-- Without marks there is no box. -/
theorem boxesFollow_nil : BoxesFollow calls known [] := by
  intro before name after marks
  simp at marks

/-- One box follows what is known. -/
theorem boxesFollow_box {name : String} (met : calls name → name ∈ known) :
    BoxesFollow calls known [.box name] := by
  intro before other after marks called
  cases before with
  | nil =>
    obtain ⟨⟨rfl⟩, -⟩ := List.cons.inj marks
    exact .inl (met called)
  | cons first more => simp at marks

/-- A panel is no box. -/
theorem boxesFollow_panel {name : String} : BoxesFollow calls known [.panel name] := by
  intro before other after marks
  simp [List.cons_eq_append_iff] at marks

/-- The panels of marks that come first are known to those that come after them. -/
theorem BoxesFollow.append {further : List String} {first others : List Track.Mark}
    (firstFollow : BoxesFollow calls known first) (othersFollow : BoxesFollow calls further others)
    (opened : ∀ name ∈ further, name ∈ known ∨ .panel name ∈ first) :
    BoxesFollow calls known (first ++ others) := by
  have later (before : List Track.Mark) {name : String} {after : List Track.Mark}
      (marks : others = before ++ .box name :: after) (called : calls name) :
      name ∈ known ∨ .panel name ∈ first ++ before := by
    rcases othersFollow before name after marks called with told | told
    · exact (opened name told).imp_right (List.mem_append_left before)
    · exact .inr (List.mem_append_right first told)
  intro before name after marks called
  rcases List.append_eq_append_iff.mp marks with ⟨between, rfl, rest⟩ | ⟨between, rfl, rest⟩
  · exact later between rest called
  · cases between with
    | nil => simpa using later [] rest.symm called
    | cons mark more =>
      obtain ⟨rfl, rfl⟩ := List.cons.inj rest
      exact firstFollow before name more rfl called

/-- A panel is known inside it. -/
theorem BoxesFollow.inPanel {name : String} {marks : List Track.Mark}
    (follow : BoxesFollow calls [name] marks) : BoxesFollow calls known (.panel name :: marks) := by
  refine boxesFollow_panel.append follow fun other member => .inr ?_
  rw [List.mem_singleton.mp member]
  exact .head _

/-- What is built between two nestings of one composite diagram: the panels, and the marks of the
tracks. -/
structure Opens (grammar : RuleSet) (before after : Nesting) (panels : Entries (Option String))
    (marks : List Track.Mark) : Prop where
  targets : after.targets = before.targets
  opened : after.opened = before.opened ++ panels
  distinct : before.opened.Distinct → after.opened.Distinct
  allowed : ∀ entry ∈ panels, MayOpen grammar before.targets entry.1 entry.2
  met : ∀ name ∈ panels.names, .panel name ∈ marks
  boxes : BoxesFollow (Untied grammar before.targets) before.opened.names marks

variable {grammar : RuleSet} {before between after : Nesting}
  {panels further : Entries (Option String)} {marks others : List Track.Mark}

/-- Marks without a panel change nothing. -/
theorem Opens.unchanged {nesting : Nesting}
    (boxes : BoxesFollow (Untied grammar nesting.targets) nesting.opened.names marks) :
    Opens grammar nesting nesting [] marks where
  targets := rfl
  opened := (List.append_nil _).symm
  distinct := id
  allowed := nofun
  met := nofun
  boxes := boxes

/-- What is built in two steps is built at once. -/
theorem Opens.append (first : Opens grammar before between panels marks)
    (second : Opens grammar between after further others) :
    Opens grammar before after (panels ++ further) (marks ++ others) where
  targets := second.targets.trans first.targets
  opened := by rw [second.opened, first.opened, List.append_assoc]
  distinct := fun distinct => second.distinct (first.distinct distinct)
  allowed := by
    intro entry member
    rcases List.mem_append.mp member with early | late
    · exact first.allowed entry early
    · exact first.targets ▸ second.allowed entry late
  met := by
    intro name member
    rw [Entries.names, List.map_append, List.mem_append] at member
    rcases member with early | late
    · exact List.mem_append_left others (first.met name early)
    · exact List.mem_append_right marks (second.met name late)
  boxes := by
    refine first.boxes.append (first.targets ▸ second.boxes) fun name member => ?_
    rw [first.opened, Entries.names, List.map_append, List.mem_append] at member
    exact member.imp_right (first.met name)

/-- A claimed panel is opened before everything inside it. -/
theorem Opens.panel {name : String} {rule : Rule} {context : String} {opened : Nesting}
    (found : grammar.get? name = some rule) (unit : rule.isUnit = true)
    (claim : before.Claims name (some context) .definition opened) :
    Opens grammar before opened [(name, some context)] [.panel name] := by
  obtain ⟨rfl, fresh, tied⟩ : opened = before.opening name (some context) ∧
      name ∉ before.opened.names ∧
        ∀ target, before.targets.get? name = some target → target = some context := by
    cases claim with
    | first fresh free => exact ⟨rfl, fresh, by simp [free]⟩
    | home fresh tied here => exact ⟨rfl, fresh, by simp [tied, here]⟩
  refine ⟨rfl, rfl, Nesting.distinct_opening (some context) fresh, ?_, ?_, boxesFollow_panel⟩
  · rintro entry member
    cases List.mem_singleton.mp member
    exact ⟨⟨rule, found, unit⟩, context, rfl, tied⟩
  · simp [Entries.names]

/-- A box follows the panel that it calls for, as the panel has been opened before. -/
theorem Boxed.opens {place : Place} {name : String} {nesting : Nesting}
    (boxed : Boxed grammar place name (some nesting)) :
    Opens grammar nesting nesting [] [.box name] := by
  refine .unchanged (boxesFollow_box ?_)
  rintro ⟨⟨rule, found, unit⟩, free⟩
  cases boxed with
  | unknown missing => simp [missing] at found
  | claimed foundHere _ claim =>
    cases claim with
    | again opened => exact opened
    | away _ tied => simp [free] at tied
  | recursive foundHere splices entered =>
    cases foundHere.symm.trans found
    cases splices with
    | part inner => simp [inner] at unit
    | untied _ claim =>
      cases claim with
      | spliced _ tied => simp [free] at tied

section Tracks

variable {α : Type}

/-- The tracks of a composite diagram, with what they open inside a definition. -/
def OpensTracks (grammar : RuleSet) (context : String) (before after : Option Nesting)
    (tracks : List (Track α)) : Prop :=
  ∀ nesting, before = some nesting → ∃ final, after = some final ∧
    Opens grammar nesting final (Track.panelsOfAll (some context) tracks)
      (Track.marksOfAll tracks)

/-- Tracks with the same panels and the same marks open the same. -/
theorem OpensTracks.congr {context : String} {before after : Option Nesting}
    {tracks around : List (Track α)} (opens : OpensTracks grammar context before after tracks)
    (panels : Track.panelsOfAll (some context) around = Track.panelsOfAll (some context) tracks)
    (marks : Track.marksOfAll around = Track.marksOfAll tracks) :
    OpensTracks grammar context before after around := by
  intro nesting nested
  rw [panels, marks]
  exact opens nesting nested

variable [Scalar α]

/-- A leaf has no panel, and no box that calls for one if it is no label. -/
theorem DrawsLeaf.opens {owner context : String} {expr : Expr} {track : Track α}
    (leaf : DrawsLeaf owner expr track) (labelFree : Expr.Throughout Expr.NoLabel [expr])
    (nesting : Option Nesting) : OpensTracks grammar context nesting nesting [track] := by
  rintro nesting rfl
  obtain ⟨noPanels, noMarks⟩ : Track.panelsOfAll (some context) [track] = [] ∧
      Track.marksOfAll [track] = [] := by
    cases leaf with
    | @label text => exact absurd rfl (labelFree (.label text) (.head _) text)
    | @tokens texts =>
      constructor
      · simp [Track.choiceOf, Track.panelsOfAll_eq_flatMap, Track.panels, List.flatMap_map,
          Track.boxOf]
      · have unmarked (text : String) : (Track.boxOf .token text : Track α).marks = [] := rfl
        simp [Track.choiceOf, Track.marksOfAll, List.flatMap_map, unmarked]
    | _ => exact ⟨rfl, rfl⟩
  rw [noPanels, noMarks]
  exact ⟨nesting, rfl, .unchanged boxesFollow_nil⟩

/-- What a composite diagram opens while its tracks are drawn. -/
theorem Draws.opens {grammar : RuleSet} {place : Place} {before after : Option Nesting}
    {exprs : List Expr} {tracks : List (Track α)}
    (draws : Draws grammar place before exprs tracks after) (rulesLabelFree : grammar.LabelFree)
    (labelFree : Expr.Throughout Expr.NoLabel exprs) :
    OpensTracks grammar place.context before after tracks := by
  induction draws with
  | nil =>
    rintro nesting rfl
    exact ⟨nesting, rfl, .unchanged boxesFollow_nil⟩
  | cons first others firstOpens othersOpens =>
    rintro nesting rfl
    obtain ⟨firstFree, othersFree⟩ := Expr.throughout_cons.mp labelFree
    obtain ⟨between, rfl, firstPart⟩ := firstOpens firstFree nesting rfl
    obtain ⟨final, rfl, othersPart⟩ := othersOpens othersFree between rfl
    refine ⟨final, rfl, ?_⟩
    simpa [Track.panelsOfAll, Track.marksOfAll] using firstPart.append othersPart
  | leaf leaf => exact leaf.opens labelFree _
  | sequence parts inductionHypothesis =>
    refine (inductionHypothesis (Expr.throughout_sequence.mp labelFree).2).congr ?_ ?_
    · simp [Track.sequenceOf, Track.panelsOfAll, Track.panels]
    · simp [Track.sequenceOf]
  | choice parts inductionHypothesis =>
    refine (inductionHypothesis (Expr.throughout_choice.mp labelFree).2).congr ?_ ?_
    · simp [Track.choiceOf, Track.panelsOfAll, Track.panels]
    · simp [Track.choiceOf]
  | list parts inductionHypothesis =>
    refine (inductionHypothesis (Expr.noLabel_list labelFree)).congr ?_ ?_
    · simp [Track.panelsOfAll, Track.panels]
    · simp
  | quantified part inductionHypothesis =>
    refine (inductionHypothesis (Expr.throughout_quantified.mp labelFree).2).congr ?_ ?_
    · simp [Track.panelsOfAll, Track.panels_quantifier]
    · simp [Track.marks_quantifier]
  | box boxed =>
    rintro nesting rfl
    exact ⟨nesting, rfl, boxed.opens⟩
  | splice found splices free body inductionHypothesis =>
    exact inductionHypothesis (rulesLabelFree.body found)
  | panel found unit claim body inductionHypothesis =>
    rintro nesting ⟨⟩
    obtain ⟨final, rfl, opens⟩ := inductionHypothesis (rulesLabelFree.body found) _ rfl
    refine ⟨final, rfl, ?_⟩
    obtain ⟨-, rfl⟩ := RuleSet.get?_eq_some found
    simpa [Building.panel, Track.panelsOfAll, Track.panels, Place.inDefinition] using
      (Opens.panel found unit claim).append opens

end Tracks

end Building

/-- What holds of a composite diagram of a root and of the panels that were opened for it. -/
structure Composite {α : Type} (grammar : RuleSet) (targets : Entries (Option String))
    (root : String) (diagram : Track α) (opened : Entries (Option String)) : Prop where
  /-- A walk meets exactly the opened panels, in the order in which they were opened. -/
  walked : diagram.walk.filterMap Track.panelName? = opened.names
  /-- No panel is opened twice. -/
  distinct : opened.Distinct
  /-- The root is opened first, and in no other panel. -/
  first : opened.head? = some (root, none)
  /-- Every panel is opened in the nearest panel around it. -/
  around : diagram.panels none = opened
  /-- Only units have panels, and a unit that is tied to a definition has it there. -/
  inner : ∀ name around, (name, around) ∈ opened → name ≠ root →
    (∃ rule, grammar.get? name = some rule ∧ rule.drawnInline = some false) ∧
      ∃ definition, around = some definition ∧
        ∀ target, targets.get? name = some target → target = some definition
  /-- A box of a unit that is tied to nothing comes after the panel of the unit. -/
  boxes : ∀ before extent name after rule,
    diagram.walk = before ++ .box extent .rule name :: after →
    grammar.get? name = some rule → rule.drawnInline = some false → targets.get? name = none →
    name ∈ before.filterMap Track.panelName?

/-- A rule is a unit when a diagram never shows it in the place of its references. -/
theorem Rule.isUnit_iff {rule : Rule} : rule.isUnit = true ↔ rule.drawnInline = some false :=
  beq_iff_eq

/-- A composite diagram of any rule opens every panel once, where it is first met, and inside the
definition that it is tied to. -/
theorem composite_diagram {α : Type} [Scalar α] {grammar : RuleSet} (labelFree : grammar.LabelFree)
    {root : String} {rule : Rule} (found : grammar.get? root = some rule)
    (targets : Entries (Option String)) :
    ∃ (diagram : Track α) (after : Nesting),
      grammar.diagram (some (Nesting.start targets root)) rule = (diagram, some after) ∧
        Composite grammar targets root diagram after.opened := by
  obtain ⟨item, _, built, draws⟩ :=
    grammar.diagram_drawn (α := α) (some (Nesting.start targets root)) rule
  obtain ⟨after, rfl, opens⟩ :=
    draws.opens labelFree (labelFree.body found) (Nesting.start targets root) rfl
  refine ⟨_, after, built, ?_⟩
  obtain ⟨-, rfl⟩ := RuleSet.get?_eq_some found
  have opened : after.opened = (rule.name, none) :: item.panels (some rule.name) := by
    simpa [Nesting.start, Track.panelsOfAll, RuleSet.topPlace] using opens.opened
  have panels : (Track.ruleOf (Building.panel rule item)).panels none = after.opened :=
    opened.symm
  have boxes : Building.BoxesFollow (Building.Untied grammar targets) []
      (Track.ruleOf (Building.panel rule item)).marks := by
    simpa [Nesting.start, Track.ruleOf, Building.panel] using
      Building.BoxesFollow.inPanel opens.boxes
  constructor
  case walked => rw [← panels, Track.names_panels]
  case distinct => exact opens.distinct (List.nodup_singleton rule.name)
  case first => rw [opened, List.head?_cons]
  case around => exact panels
  case inner =>
    intro name around member different
    rw [opened] at member
    rcases List.mem_cons.mp member with same | inside
    · exact absurd (congrArg Prod.fst same) different
    · obtain ⟨⟨unitRule, unitFound, unit⟩, tied⟩ := opens.allowed (name, around)
        (by simpa [Track.panelsOfAll, RuleSet.topPlace] using inside)
      exact ⟨⟨unitRule, unitFound, Rule.isUnit_iff.mp unit⟩, tied⟩
  case boxes =>
    intro before extent name rest unitRule walked unitFound unit free
    have marks : (Track.ruleOf (Building.panel rule item)).marks
        = before.filterMap Track.mark? ++ .box name :: rest.filterMap Track.mark? := by
      rw [Track.marks, walked]
      simp [Track.mark?]
    rcases boxes _ name _ marks ⟨⟨unitRule, unitFound, Rule.isUnit_iff.mpr unit⟩, free⟩ with
      known | marked
    · contradiction
    · exact Track.mem_panelNames_of_mark marked

/-- A unit of statements, which may be blocks of statements again. -/
def statementRule : Rule :=
  ⟨"statement", .choice [.reference "block", .sequence [.reference "name", .reference "value"]],
    some false, true, none, none, ["block", "name", "value"], ["block"]⟩

/-- Statements and blocks, with values that are tied to the names of which they are values. -/
def statements : RuleSet :=
  ⟨[statementRule,
    ⟨"block", .sequence [.token "begin", .quantified .zeroOrMore (.reference "statement"),
        .reference "name", .token "end"], some false, true, none, none, ["statement", "name"],
      ["statement", "value"]⟩,
    ⟨"name", .sequence [.terminal "word", .quantified .zeroOrOne (.reference "value")], some false,
      true, none, none, ["value"], ["statement", "block"]⟩,
    ⟨"value", .reference "block", some false, true, none, none, ["block"], ["statement", "name"]⟩]⟩

/-- The panels of the composite diagram of statements, each with the one in which it is opened. -/
def statementPanels : Entries (Option String) :=
  [("statement", none), ("block", some "statement"), ("name", some "block"),
    ("value", some "name")]

/-- Building the composite diagram of statements opens these panels. -/
theorem opened_statements :
    (statements.diagram (some (Nesting.start [("value", some "name")] "statement"))
      statementRule : Building.Built (Track Float)).2.map Nesting.opened
        = some statementPanels := by
  simp [statements, statementRule, statementPanels, RuleSet.diagram, RuleSet.topPlace,
    RuleSet.get?, RuleSet.names, Building.build, Building.buildAll, Building.buildReference,
    Building.Place.inDefinition, Rule.isUnit, Rule.drawnInline, Nesting.start, Nesting.claim,
    Nesting.opening, Entries.has, Entries.get?]

/-- The composite diagram of statements opens the panels of blocks, of names inside them, and of
values inside names. -/
theorem composite_statements :
    statements.LabelFree ∧ statements.get? "statement" = some statementRule ∧
      ∃ (diagram : Track Float) (after : Nesting),
        statements.diagram (some (Nesting.start [("value", some "name")] "statement"))
            statementRule = (diagram, some after) ∧
          after.opened = statementPanels ∧
          diagram.panels none = statementPanels ∧
          Composite statements [("value", some "name")] "statement" diagram after.opened := by
  have labelFree : statements.LabelFree := by
    simp [RuleSet.LabelFree, statements, statementRule, Expr.Throughout, Expr.NoLabel,
      Expr.partsOfAll, Expr.parts]
  have found : statements.get? "statement" = some statementRule := rfl
  obtain ⟨diagram, after, built, composite⟩ :=
    composite_diagram (α := Float) labelFree found [("value", some "name")]
  have opened := opened_statements
  rw [built] at opened
  have panels : after.opened = statementPanels := Option.some.inj opened
  exact ⟨labelFree, found, diagram, after, built, panels, panels ▸ composite.around, composite⟩

end GrammarView
