import GrammarView.Proofs.Drawings

/-!
# The diagrams of all rules

Where a reader of the diagrams of all rules finds a rule. A box that names a rule leads to the
diagram of that rule, unless it stands inside the body of the rule itself, where going on with the
body is cut off. A rule without a diagram is found all the same where a rule with a diagram leads to
it: its body is spliced into one of the diagrams.

Both go back to one fact about a single box. A unit has a diagram of its own, and at the top of a
diagram every other body may be spliced, so that a box for it calls for a splice further out.
-/

namespace GrammarView

open Building

/-- Whether a rule has a diagram of its own among the diagrams of all rules. -/
def RuleSet.HasDiagram (grammar : RuleSet) (name : String) : Prop :=
  ∃ rule ∈ grammar.diagrammed, rule.name = name

/-- Whether the body of a rule is spliced into the diagram of another one. -/
def SplicedInto (α : Type) [Scalar α] (grammar : RuleSet) (origin : Rule) (name : String) : Prop :=
  ∃ outer body : Drawing α, (grammar.drawing none origin).Reaches grammar outer ∧
    outer.Splices grammar name body

/-- Whether a part of the diagram of a rule is drawn inside a splice of the body with the given
name. -/
def CutOff {α : Type} [Scalar α] (grammar : RuleSet) (origin : Rule) (name : String)
    (part : Drawing α) : Prop :=
  ∃ outer body : Drawing α, (grammar.drawing none origin).Reaches grammar outer ∧
    outer.Splices grammar name body ∧ body.Reaches grammar part

/-- What the diagrams of all rules show of the rules of a grammar. -/
structure SelfContained (α : Type) [Scalar α] (grammar : RuleSet) : Prop where
  /-- Every box with the name of a rule is drawn for a reference in one of the diagrams. -/
  drawn : ∀ (extent : Extent α) name,
    .box extent .rule name ∈ (Track.stackOf (grammar.diagrams none).1).walk →
    ∃ origin ∈ grammar.diagrammed, ∃ part : Drawing α,
      (grammar.drawing none origin).Reaches grammar part ∧ part.Boxes grammar name
  /-- Every box that is drawn for a reference names a rule with a diagram, or stands inside a splice
  of the body of that rule. -/
  boxes : ∀ origin ∈ grammar.diagrammed, ∀ (part : Drawing α) name,
    (grammar.drawing none origin).Reaches grammar part → part.Boxes grammar name →
    grammar.HasDiagram name ∨ CutOff grammar origin name part
  /-- A rule to which a rule with a diagram leads has a diagram, or its body is spliced into one. -/
  shown : ∀ origin ∈ grammar.diagrammed, ∀ name, grammar.Leads origin.name name →
    grammar.HasDiagram name ∨ ∃ other ∈ grammar.diagrammed, SplicedInto α grammar other name

namespace Building

variable {α : Type} [Scalar α] {grammar : RuleSet} {name : String}

/-- A unit has a diagram of its own. -/
theorem hasDiagram_of_isUnit {rule : Rule} (found : grammar.get? name = some rule)
    (unit : rule.isUnit = true) : grammar.HasDiagram name := by
  obtain ⟨member, same⟩ := RuleSet.get?_eq_some found
  have shown : rule.railroad = true := by
    by_contra hidden
    have inline : rule.drawnInline = some true := by
      rw [Rule.drawnInline, if_neg hidden]
    rw [Rule.isUnit, inline] at unit
    contradiction
  refine ⟨rule, List.mem_filter.mpr ⟨member, ?_⟩, same⟩
  rw [Rule.isDiagrammed, shown, unit]
  rfl

/-- A box that is drawn without panels for a rule stands for a rule with a diagram, or inside the
body that it names. -/
theorem Boxed.hasDiagram_or_entered {place : Place} (boxed : Boxed grammar place name none)
    (known : name ∈ grammar.names) : grammar.HasDiagram name ∨ name ∉ place.spliceable := by
  cases boxed with
  | unknown missing =>
    obtain ⟨rule, found⟩ := RuleSet.exists_get? known
    exact absurd (found.symm.trans missing) nofun
  | apart found unit => exact .inl (hasDiagram_of_isUnit found unit)
  | recursive found splices entered => exact .inr entered

namespace Drawing

variable {whole part : Drawing α} {holds : String → Prop}

/-- What holds of every name that a drawing refers to, and with a rule of all that its body refers
to, holds of every name that the parts of the drawing refer to. -/
theorem Makes.refers (makes : Makes grammar whole part)
    (closed : ∀ name rule, grammar.get? name = some rule → holds name →
      ∀ target ∈ rule.body.targets, holds target)
    (refers : ∀ name ∈ whole.exprs.flatMap Expr.targets, holds name) :
    ∀ name ∈ part.exprs.flatMap Expr.targets, holds name := by
  cases makes with
  | first =>
    rw [List.flatMap_cons, List.forall_mem_append] at refers
    simpa using refers.1
  | others =>
    rw [List.flatMap_cons, List.forall_mem_append] at refers
    exact refers.2
  | splice splices =>
    obtain @⟨_, _, _, _, _, found, _, _, _⟩ := splices
    simpa using closed _ _ found (refers _ (by simp))
  | panel found => simpa using closed _ _ found (refers _ (by simp))
  | _ => simpa using refers

/-- The same of every drawing that is reached. -/
theorem Reaches.refers (reaches : Reaches grammar whole part)
    (closed : ∀ name rule, grammar.get? name = some rule → holds name →
      ∀ target ∈ rule.body.targets, holds target)
    (refers : ∀ name ∈ whole.exprs.flatMap Expr.targets, holds name) :
    ∀ name ∈ part.exprs.flatMap Expr.targets, holds name := by
  induction reaches with
  | refl => exact refers
  | tail _ makes inductionHypothesis => exact makes.refers closed inductionHypothesis

end Drawing

end Building

section Diagrams

variable {α : Type} [Scalar α] {grammar : RuleSet} {names : List String} {origin : Rule}
  {name : String} {outer part : Drawing α}

/-- In the diagram of a rule everything refers to rules to which the rule leads. -/
theorem ReferenceGraph.leads (graph : ReferenceGraph names grammar)
    (found : grammar.get? origin.name = some origin)
    (reaches : (grammar.drawing none origin).Reaches grammar part) :
    ∀ name ∈ part.exprs.flatMap Expr.targets, grammar.Leads origin.name name := by
  have edge {name target : String} {rule : Rule} (found : grammar.get? name = some rule)
      (refers : target ∈ rule.body.targets) : (name, target) ∈ grammar.edges :=
    (graph.edges name target).mpr ⟨rule, found, refers⟩
  refine reaches.refers (fun _ _ found leads _ refers => leads.tail (edge found refers)) ?_
  intro target refers
  exact .single (edge found (by simpa [RuleSet.drawing] using refers))

/-- A rule whose body is spliced into the diagram of another one is one to which that rule leads. -/
theorem SplicedInto.leads (graph : ReferenceGraph names grammar)
    (found : grammar.get? origin.name = some origin) (spliced : SplicedInto α grammar origin name) :
    grammar.Leads origin.name name := by
  obtain ⟨outer, body, reaches, splices⟩ := spliced
  refine graph.leads found reaches name ?_
  cases splices
  simp

/-- A box in the diagram of a rule leads to a diagram, or going on is cut off there. -/
theorem hasDiagram_or_cutOff
    (closed : ∀ rule ∈ grammar.rules, ∀ target ∈ rule.body.targets, target ∈ grammar.names)
    (diagrammed : origin ∈ grammar.diagrammed)
    (reaches : (grammar.drawing none origin).Reaches grammar part)
    (boxes : part.Boxes grammar name) :
    grammar.HasDiagram name ∨ CutOff grammar origin name part := by
  have apart : part.before = none := reaches.apart rfl
  have known : ∀ name ∈ part.exprs.flatMap Expr.targets, name ∈ grammar.names := by
    refine reaches.refers (fun _ rule found _ => closed rule (RuleSet.get?_eq_some found).1) ?_
    simpa [RuleSet.drawing] using closed origin (List.mem_of_mem_filter diagrammed)
  obtain @⟨place, nesting, boxed⟩ := boxes
  obtain rfl : nesting = none := apart
  have knownName : name ∈ grammar.names := known name (by simp)
  rcases boxed.hasDiagram_or_entered knownName with shown | entered
  · exact .inl shown
  · by_cases own : name = origin.name
    · exact .inl ⟨origin, diagrammed, own.symm⟩
    · have free : name ∈ (grammar.topPlace origin).spliceable :=
        (List.mem_erase_of_ne own).mpr knownName
      exact .inr (reaches.spliced rfl free entered)

/-- A rule to which something in the diagram of another one refers has a diagram, or its body is
spliced into that diagram. -/
theorem hasDiagram_or_splicedInto
    (closed : ∀ rule ∈ grammar.rules, ∀ target ∈ rule.body.targets, target ∈ grammar.names)
    (diagrammed : origin ∈ grammar.diagrammed)
    (reaches : (grammar.drawing none origin).Reaches grammar outer)
    (refers : name ∈ outer.exprs.flatMap Expr.targets) :
    grammar.HasDiagram name ∨ SplicedInto α grammar origin name := by
  have holds : outer.Holds grammar := reaches.holds (grammar.drawing_holds none origin)
  obtain ⟨part, further, boxes | ⟨body, splices⟩ | nested⟩ := holds.reference_reached refers
  · rcases hasDiagram_or_cutOff closed diagrammed (reaches.trans further) boxes with
      shown | ⟨outer, body, reached, splices, -⟩
    · exact .inl shown
    · exact .inr ⟨outer, body, reached, splices⟩
  · exact .inr ⟨part, body, reaches.trans further, splices⟩
  · exact absurd (further.apart (reaches.apart rfl)) nested

/-- A box with the name of a rule in the diagrams of all rules is drawn in one of them. -/
theorem box_drawn (labelFree : grammar.LabelFree)
    (marked : .box name ∈ (Track.stackOf (grammar.diagrams none).1 : Track α).marks) :
    ∃ origin ∈ grammar.diagrammed, ∃ part : Drawing α,
      (grammar.drawing none origin).Reaches grammar part ∧ part.Boxes grammar name := by
  rw [grammar.diagrams_eq_map, Track.marks_eq] at marked
  obtain ⟨_, member, marked⟩ := List.mem_flatMap.mp marked
  obtain ⟨origin, diagrammed, rfl⟩ := List.mem_map.mp member
  have labels : Expr.Throughout Expr.NoLabel [origin.body] :=
    labelFree origin (List.mem_of_mem_filter diagrammed)
  have inside : .box name ∈ Track.marksOfAll (grammar.drawing none origin : Drawing α).tracks := by
    simpa [RuleSet.diagram, RuleSet.drawing, Track.ruleOf, panel] using marked
  have holds : (grammar.drawing none origin : Drawing α).Holds grammar :=
    grammar.drawing_holds none origin
  exact ⟨origin, diagrammed, holds.box_reached labelFree labels inside⟩

end Diagrams

/-- The diagrams of all rules of an accepted description without labels show every rule to which
they lead, and lead from every box to its rule. -/
theorem all_diagrams_self_contained {α : Type} [Scalar α] {description : Entries Json}
    {delist : Bool} {grammar : RuleSet} (distinct : description.Distinct)
    (valid : validate description delist = .ok grammar) (labelFree : grammar.LabelFree) :
    SelfContained α grammar := by
  have graph := graph_of_references distinct valid
  have differ : grammar.names.Nodup := graph.names ▸ distinct
  constructor
  case drawn =>
    intro extent name met
    exact box_drawn labelFree (List.mem_filterMap.mpr ⟨_, met, rfl⟩)
  case boxes =>
    exact fun origin diagrammed part name => hasDiagram_or_cutOff graph.closed diagrammed
  case shown =>
    intro origin diagrammed name leads
    induction leads with
    | refl => exact .inl ⟨origin, diagrammed, rfl⟩
    | @tail name target _ edge inductionHypothesis =>
      obtain ⟨rule, found, refers⟩ := (graph.edges name target).mp edge
      -- The reference stands in the body of a rule that is shown, so it is drawn with that body.
      rcases inductionHypothesis with
        ⟨other, shown, rfl⟩ | ⟨other, shown, outer, _, reaches, splices⟩
      · obtain rfl : other = rule := Option.some.inj
          ((RuleSet.get?_of_mem differ (List.mem_of_mem_filter shown)).symm.trans found)
        exact (hasDiagram_or_splicedInto graph.closed shown .refl
          (by simpa [RuleSet.drawing] using refers)).imp_right
          fun spliced => ⟨other, shown, spliced⟩
      · have inside := reaches.tail (.splice splices)
        obtain @⟨_, _, _, spliced, _, hit, _, _, _⟩ := splices
        obtain rfl : spliced = rule := Option.some.inj (hit.symm.trans found)
        exact (hasDiagram_or_splicedInto graph.closed shown inside
          (by simpa using refers)).imp_right
          fun spliced => ⟨other, shown, spliced⟩

/-- A start with a chain that goes on with itself, and two rules of which nothing else makes use. -/
def chainAndRing : Entries Json :=
  [("start", .obj [("sequence", .arr [.str "chain"])]),
    ("chain", .obj [("sequence", .arr [.obj [("token", .str "-")],
      .obj [("zeroOrOne", .str "chain")]])]),
    ("here", .obj [("sequence", .arr [.str "there"])]),
    ("there", .obj [("sequence", .arr [.str "here"])])]

/-- The grammar of the chain and the ring. -/
def chainAndRingGrammar : RuleSet :=
  ⟨[⟨"start", .sequence [.reference "chain"], none, true, none, none, ["chain"], []⟩,
    ⟨"chain", .sequence [.token "-", .quantified .zeroOrOne (.reference "chain")], none, true, none,
      none, ["chain"], ["start", "chain"]⟩,
    ⟨"here", .sequence [.reference "there"], none, true, none, none, ["there"], ["there"]⟩,
    ⟨"there", .sequence [.reference "here"], none, true, none, none, ["here"], ["here"]⟩]⟩

/-- What is accepted of the chain and the ring. -/
theorem validate_chainAndRing :
    chainAndRing.Distinct ∧ validate chainAndRing false = .ok chainAndRingGrammar ∧
      chainAndRingGrammar.LabelFree := by
  refine ⟨?_, by cbv, ?_⟩
  · simp [Entries.Distinct, Entries.names, chainAndRing]
  · simp [RuleSet.LabelFree, chainAndRingGrammar, Expr.Throughout, Expr.NoLabel, Expr.partsOfAll,
      Expr.parts]

/-- The diagram of the start shows the chain, and cuts it off where it goes on with itself. -/
theorem chain_self_contained :
    chainAndRing.Distinct ∧ validate chainAndRing false = .ok chainAndRingGrammar ∧
      chainAndRingGrammar.LabelFree ∧ SelfContained Rat chainAndRingGrammar := by
  obtain ⟨distinct, valid, labelFree⟩ := validate_chainAndRing
  exact ⟨distinct, valid, labelFree, all_diagrams_self_contained distinct valid labelFree⟩

/-- Though any rule may have a diagram, there is a box for the chain, which has none, and the ring
is shown nowhere. -/
theorem chain_without_diagram :
    chainAndRing.Distinct ∧ validate chainAndRing false = .ok chainAndRingGrammar ∧
      chainAndRingGrammar.LabelFree ∧
      (∀ rule ∈ chainAndRingGrammar.rules, rule.railroad = true) ∧
      ((∃ extent : Extent Rat,
          .box extent .rule "chain" ∈ (Track.stackOf (chainAndRingGrammar.diagrams none).1).walk) ∧
        ¬ chainAndRingGrammar.HasDiagram "chain") ∧
      ("here" ∈ chainAndRingGrammar.names ∧ ¬ chainAndRingGrammar.HasDiagram "here" ∧
        ∀ origin ∈ chainAndRingGrammar.diagrammed,
          ¬ SplicedInto Rat chainAndRingGrammar origin "here") := by
  obtain ⟨distinct, valid, labelFree⟩ := validate_chainAndRing
  have graph := graph_of_references distinct valid
  have shown : ∀ rule ∈ chainAndRingGrammar.diagrammed, rule.name = "start" := by decide +kernel
  have only {name : String} (hasDiagram : chainAndRingGrammar.HasDiagram name) :
      name = "start" := by
    obtain ⟨rule, diagrammed, rfl⟩ := hasDiagram
    exact shown rule diagrammed
  have inner {name : String} (leads : chainAndRingGrammar.Leads "start" name) :
      name ∈ ["start", "chain"] := by
    induction leads with
    | refl => decide
    | tail _ edge inductionHypothesis =>
      have edges : ∀ edge ∈ chainAndRingGrammar.edges,
          edge.1 ∈ ["start", "chain"] → edge.2 ∈ ["start", "chain"] := by decide
      exact edges _ edge inductionHypothesis
  refine ⟨distinct, valid, labelFree, by decide, ⟨?_, ?_⟩, by decide, ?_, ?_⟩
  · have marks : (Track.stackOf (chainAndRingGrammar.diagrams none).1 : Track Rat).marks
        = [.panel "start", .box "chain"] := by cbv
    have marked : .box "chain" ∈ (Track.stackOf (chainAndRingGrammar.diagrams none).1 :
        Track Rat).marks := by simp [marks]
    obtain ⟨track, met, mark⟩ := List.mem_filterMap.mp marked
    obtain ⟨extent, rfl⟩ := Track.eq_box_of_mark mark
    exact ⟨extent, met⟩
  · exact fun chain => absurd (only chain) (by decide)
  · exact fun here => absurd (only here) (by decide)
  · intro origin diagrammed spliced
    have found : chainAndRingGrammar.get? origin.name = some origin :=
      RuleSet.get?_of_mem (graph.names ▸ distinct) (List.mem_of_mem_filter diagrammed)
    have leads := spliced.leads graph found
    rw [shown origin diagrammed] at leads
    exact absurd (inner leads) (by decide)

end GrammarView
