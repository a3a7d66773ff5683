import GrammarView.Proofs.ReferenceGraph
import GrammarView.Proofs.Tracks

/-!
# Drawings inside drawings

What is drawn while something else is drawn. A drawing is made of the drawings of its parts, and
where a body is drawn in the place of a reference the drawing of the body is made for that of the
reference. Following these steps leads from the body of a rule to everything that its diagram is
made of: to each of its boxes, and to each reference in the bodies on the way.
-/

namespace GrammarView

namespace Building

/-- Expressions at a place with the tracks that are drawn for them, and the nesting before and
after. -/
structure Drawing (α : Type) where
  place : Place
  before : Option Nesting
  exprs : List Expr
  tracks : List (Track α)
  after : Option Nesting

namespace Drawing

variable {α : Type} [Scalar α] {grammar : RuleSet} {name : String}

/-- Whether the tracks are what is drawn for the expressions. -/
def Holds (grammar : RuleSet) (drawing : Drawing α) : Prop :=
  Draws grammar drawing.place drawing.before drawing.exprs drawing.tracks drawing.after

/-- The body of a rule is drawn in the place of a reference to it, without a panel. -/
inductive Splices (grammar : RuleSet) (name : String) : Drawing α → Drawing α → Prop where
  | body {place before after rule track} (found : grammar.get? name = some rule)
      (splices : Building.Splices place name rule before) (free : name ∈ place.spliceable)
      (holds : Draws grammar (place.inSplice name) before [rule.body] [track] after) :
      Splices grammar name ⟨place, before, [.reference name], [track], after⟩
        ⟨place.inSplice name, before, [rule.body], [track], after⟩

/-- A box is drawn for a reference. -/
inductive Boxes (grammar : RuleSet) (name : String) : Drawing α → Prop where
  | box {place nesting} (boxed : Boxed grammar place name nesting) :
      Boxes grammar name ⟨place, nesting, [.reference name], [ruleBox name], nesting⟩

/-- The drawings that a drawing is made of. -/
inductive Makes (grammar : RuleSet) : Drawing α → Drawing α → Prop where
  | first {place before between after item track items tracks}
      (first : Draws grammar place before [item] [track] between)
      (others : Draws grammar place between items tracks after) :
      Makes grammar ⟨place, before, item :: items, track :: tracks, after⟩
        ⟨place, before, [item], [track], between⟩
  | others {place before between after item track items tracks}
      (first : Draws grammar place before [item] [track] between)
      (others : Draws grammar place between items tracks after) :
      Makes grammar ⟨place, before, item :: items, track :: tracks, after⟩
        ⟨place, between, items, tracks, after⟩
  | sequence {place before after items tracks}
      (parts : Draws grammar place before items tracks after) :
      Makes grammar ⟨place, before, [.sequence items], [.sequenceOf tracks], after⟩
        ⟨place, before, items, tracks, after⟩
  | choice {place before after items tracks}
      (parts : Draws grammar place before items tracks after) :
      Makes grammar ⟨place, before, [.choice items], [.choiceOf tracks], after⟩
        ⟨place, before, items, tracks, after⟩
  | list {place before after item separator first second}
      (parts : Draws grammar place before [.reference item, separator] [first, second] after) :
      Makes grammar
        ⟨place, before, [.list item separator], [.list Track.unmeasured first second], after⟩
        ⟨place, before, [.reference item, separator], [first, second], after⟩
  | quantified {place before after quantifier item track}
      (part : Draws grammar place before [item] [track] after) :
      Makes grammar
        ⟨place, before, [.quantified quantifier item], [quantifier.track track], after⟩
        ⟨place, before, [item], [track], after⟩
  | splice {name whole body} (splices : Splices grammar name whole body) : Makes grammar whole body
  | panel {place} {before opened : Nesting} {after name rule track}
      (found : grammar.get? name = some rule) (unit : rule.isUnit = true)
      (claim : before.Claims name (some place.context) .definition opened)
      (body : Draws grammar (place.inDefinition name) (some opened) [rule.body] [track] after) :
      Makes grammar ⟨place, some before, [.reference name], [panel rule track], after⟩
        ⟨place.inDefinition name, some opened, [rule.body], [track], after⟩

/-- A drawing is reached from another one that it is made for, directly or through others. -/
def Reaches (grammar : RuleSet) : Drawing α → Drawing α → Prop :=
  Relation.ReflTransGen (Makes grammar)

variable {whole outer body part : Drawing α}

/-- What a drawing is made of has been drawn. -/
theorem Makes.holds (makes : Makes grammar whole part) : part.Holds grammar := by
  cases makes with
  | first first others => exact first
  | others first others => exact others
  | sequence parts => exact parts
  | choice parts => exact parts
  | list parts => exact parts
  | quantified part => exact part
  | splice splices =>
    obtain @⟨_, _, _, _, _, _, _, _, holds⟩ := splices
    exact holds
  | panel found unit claim body => exact body

/-- Everything that is reached from a drawing has been drawn. -/
theorem Reaches.holds (reaches : Reaches grammar whole part) (holds : whole.Holds grammar) :
    part.Holds grammar := by
  cases reaches with
  | refl => exact holds
  | tail _ makes => exact makes.holds

/-- Without panels there are none further inside. -/
theorem Reaches.apart (reaches : Reaches grammar whole part) (apart : whole.before = none) :
    part.before = none := by
  induction reaches with
  | refl => exact apart
  | tail _ makes inductionHypothesis =>
    cases makes with
    | others first others =>
      cases inductionHypothesis
      cases first.extends
      rfl
    | splice splices =>
      cases splices
      exact inductionHypothesis
    | panel => contradiction
    | _ => exact inductionHypothesis

/-- The bodies that may still be spliced become fewer on the way inside. -/
theorem Makes.sublist (makes : Makes grammar whole part) :
    part.place.spliceable.Sublist whole.place.spliceable := by
  cases makes with
  | splice splices =>
    cases splices
    exact List.erase_sublist
  | panel => exact List.erase_sublist
  | _ => exact List.Sublist.refl _

/-- The bodies that may still be spliced in a drawing are some of those of every drawing from which
it is reached. -/
theorem Reaches.sublist (reaches : Reaches grammar whole part) :
    part.place.spliceable.Sublist whole.place.spliceable := by
  induction reaches with
  | refl => exact List.Sublist.refl _
  | tail _ makes inductionHypothesis => exact makes.sublist.trans inductionHypothesis

/-- Inside the body of a rule that is spliced the rule is not spliced again. -/
theorem Splices.not_again {again : Drawing α} (distinct : outer.place.spliceable.Nodup)
    (splices : Splices grammar name outer body) (reaches : Reaches grammar body part) :
    ¬ Splices grammar name part again := by
  intro splicesAgain
  obtain @⟨place, _, _, _, _, _, _, _, _⟩ := splices
  obtain @⟨_, _, _, _, _, _, _, free, _⟩ := splicesAgain
  have fresh : name ∉ place.spliceable.erase name := distinct.not_mem_erase
  exact fresh (reaches.sublist.subset free)

/-- Where there are no panels, a body that may be spliced in a drawing and not any more further
inside is spliced between them. -/
theorem Reaches.spliced (reaches : Reaches grammar whole part) (apart : whole.before = none)
    (free : name ∈ whole.place.spliceable) (entered : name ∉ part.place.spliceable) :
    ∃ outer body, Reaches grammar whole outer ∧ Splices grammar name outer body ∧
      Reaches grammar body part := by
  induction reaches with
  | refl => exact absurd free entered
  | @tail middle part before makes inductionHypothesis =>
    by_cases stillFree : name ∈ middle.place.spliceable
    case neg =>
      obtain ⟨outer, body, reached, splices, onward⟩ := inductionHypothesis stillFree
      exact ⟨outer, body, reached, splices, onward.tail makes⟩
    case pos =>
      -- The last step takes the name away, so it is the splice of that name.
      have apartMiddle : middle.before = none := Reaches.apart before apart
      cases makes with
      | @splice other middle part splices =>
        obtain rfl : name = other := by
          by_contra different
          cases splices
          exact entered ((List.mem_erase_of_ne different).mpr stillFree)
        exact ⟨middle, part, before, splices, .refl⟩
      | panel => contradiction
      | _ => exact absurd stillFree entered

end Drawing

section Inside

variable {α : Type} [Scalar α] {grammar : RuleSet} {place : Place} {before after : Option Nesting}
  {exprs : List Expr} {tracks : List (Track α)} {name : String}

/-- A leaf that is no label has no box with the name of a rule. -/
theorem DrawsLeaf.marks {owner : String} {expr : Expr} {track : Track α}
    (leaf : DrawsLeaf owner expr track) (labelFree : Expr.Throughout Expr.NoLabel [expr]) :
    track.marks = [] := by
  cases leaf with
  | @label text => exact absurd rfl (labelFree (.label text) (.head _) text)
  | @tokens texts =>
    have unmarked (text : String) : (Track.boxOf .token text : Track α).marks = [] := rfl
    simp [Track.choiceOf, Track.marksOfAll, List.flatMap_map, unmarked]
  | _ => rfl

/-- Every box with the name of a rule is the drawing of a reference to it. -/
theorem Draws.box_reached (draws : Draws grammar place before exprs tracks after)
    (rulesLabelFree : grammar.LabelFree) (labelFree : Expr.Throughout Expr.NoLabel exprs)
    (marked : .box name ∈ Track.marksOfAll tracks) :
    ∃ part : Drawing α, Drawing.Reaches grammar ⟨place, before, exprs, tracks, after⟩ part ∧
      part.Boxes grammar name := by
  induction draws with
  | nil => contradiction
  | cons first others firstReaches othersReaches =>
    obtain ⟨firstFree, othersFree⟩ := Expr.throughout_cons.mp labelFree
    rw [Track.marksOfAll_cons, List.mem_append] at marked
    rcases marked with here | later
    · obtain ⟨part, reaches, box⟩ := firstReaches firstFree (by simpa using here)
      exact ⟨part, .head (.first first others) reaches, box⟩
    · obtain ⟨part, reaches, box⟩ := othersReaches othersFree later
      exact ⟨part, .head (.others first others) reaches, box⟩
  | leaf leaf => simp [leaf.marks labelFree] at marked
  | sequence parts inductionHypothesis =>
    obtain ⟨part, reaches, box⟩ := inductionHypothesis (Expr.throughout_sequence.mp labelFree).2
      (by simpa [Track.sequenceOf] using marked)
    exact ⟨part, .head (.sequence parts) reaches, box⟩
  | choice parts inductionHypothesis =>
    obtain ⟨part, reaches, box⟩ := inductionHypothesis (Expr.throughout_choice.mp labelFree).2
      (by simpa [Track.choiceOf] using marked)
    exact ⟨part, .head (.choice parts) reaches, box⟩
  | list parts inductionHypothesis =>
    obtain ⟨part, reaches, box⟩ := inductionHypothesis (Expr.noLabel_list labelFree)
      (by simpa using marked)
    exact ⟨part, .head (.list parts) reaches, box⟩
  | quantified inner inductionHypothesis =>
    obtain ⟨part, reaches, box⟩ := inductionHypothesis
      (Expr.throughout_quantified.mp labelFree).2 (by simpa [Track.marks_quantifier] using marked)
    exact ⟨part, .head (.quantified inner) reaches, box⟩
  | @box place nesting other boxed =>
    obtain rfl : name = other := by
      simpa [ruleBox, Track.boxOf, Track.marks, Track.walk, Track.mark?] using marked
    exact ⟨_, .refl, .box boxed⟩
  | splice found splices free body inductionHypothesis =>
    obtain ⟨part, reaches, box⟩ := inductionHypothesis (rulesLabelFree.body found) marked
    exact ⟨part, .head (.splice (.body found splices free body)) reaches, box⟩
  | panel found unit claim body inductionHypothesis =>
    obtain ⟨part, reaches, box⟩ := inductionHypothesis (rulesLabelFree.body found)
      (by simpa [Building.panel] using marked)
    exact ⟨part, .head (.panel found unit claim body) reaches, box⟩

/-- Every reference of the expressions is drawn: as a box, by the body of the rule, or where there
are panels. -/
theorem Draws.reference_reached (draws : Draws grammar place before exprs tracks after)
    (refers : name ∈ exprs.flatMap Expr.targets) :
    ∃ part : Drawing α, Drawing.Reaches grammar ⟨place, before, exprs, tracks, after⟩ part ∧
      (part.Boxes grammar name ∨ (∃ body, part.Splices grammar name body) ∨
        part.before ≠ none) := by
  induction draws with
  | nil => contradiction
  | cons first others firstReaches othersReaches =>
    rw [List.flatMap_cons, List.mem_append] at refers
    rcases refers with here | later
    · obtain ⟨part, reaches, drawn⟩ := firstReaches (by simpa using here)
      exact ⟨part, .head (.first first others) reaches, drawn⟩
    · obtain ⟨part, reaches, drawn⟩ := othersReaches later
      exact ⟨part, .head (.others first others) reaches, drawn⟩
  | leaf leaf => cases leaf <;> contradiction
  | sequence parts inductionHypothesis =>
    obtain ⟨part, reaches, drawn⟩ := inductionHypothesis (by simpa using refers)
    exact ⟨part, .head (.sequence parts) reaches, drawn⟩
  | choice parts inductionHypothesis =>
    obtain ⟨part, reaches, drawn⟩ := inductionHypothesis (by simpa using refers)
    exact ⟨part, .head (.choice parts) reaches, drawn⟩
  | list parts inductionHypothesis =>
    obtain ⟨part, reaches, drawn⟩ := inductionHypothesis (by simpa using refers)
    exact ⟨part, .head (.list parts) reaches, drawn⟩
  | quantified inner inductionHypothesis =>
    obtain ⟨part, reaches, drawn⟩ := inductionHypothesis (by simpa using refers)
    exact ⟨part, .head (.quantified inner) reaches, drawn⟩
  | box boxed =>
    obtain rfl : name = _ := by simpa using refers
    exact ⟨_, .refl, .inl (.box boxed)⟩
  | splice found splices free body =>
    obtain rfl : name = _ := by simpa using refers
    exact ⟨_, .refl, .inr (.inl ⟨_, .body found splices free body⟩)⟩
  | panel => exact ⟨_, .refl, .inr (.inr nofun)⟩

end Inside

end Building

section Diagrams

variable {α : Type} [Scalar α] (grammar : RuleSet) (nesting : Option Nesting)

/-- The drawing of the body of a rule in the diagram of that rule. -/
def RuleSet.drawing (rule : Rule) : Building.Drawing α :=
  let built := Building.build grammar (grammar.topPlace rule) nesting rule.body
  ⟨grammar.topPlace rule, nesting, [rule.body], [built.1], built.2⟩

/-- The body of a rule is drawn in its diagram. -/
theorem RuleSet.drawing_holds (rule : Rule) :
    (grammar.drawing nesting rule : Building.Drawing α).Holds grammar :=
  Building.draws_build grammar (grammar.topPlace rule) nesting rule.body
    (Building.covered_topPlace grammar rule nesting)

/-- A diagram that is built without panels leaves it so. -/
theorem RuleSet.diagram_apart (rule : Rule) :
    (grammar.diagram none rule : Building.Built (Track α)).2 = none := by
  obtain ⟨item, after, built, draws⟩ := grammar.diagram_drawn (α := α) none rule
  rw [built]
  cases draws.extends
  rfl

/-- The diagrams of all rules that have one are the diagrams of these rules, each by itself. -/
theorem RuleSet.diagrams_eq_map :
    (grammar.diagrams none : Building.Built (List (Track α)))
      = (grammar.diagrammed.map fun rule => (grammar.diagram none rule).1, none) := by
  rw [diagrams]
  induction grammar.diagrammed with
  | nil => rfl
  | cons rule rest inductionHypothesis =>
    let first : Building.Built (Track α) := grammar.diagram none rule
    let others : Building.Built (List (Track α)) := grammar.diagramsOf first.2 rest
    calc grammar.diagramsOf none (rule :: rest)
      _ = (first.1 :: others.1, others.2) := rfl
      _ = _ := by
        simp only [others, first, grammar.diagram_apart, inductionHypothesis, List.map_cons]

end Diagrams

end GrammarView
