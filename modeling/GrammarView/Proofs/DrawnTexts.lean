import GrammarView.Diagram.Sheet
import GrammarView.Proofs.Captions
import GrammarView.Proofs.Drawn
import GrammarView.Proofs.Extents
import GrammarView.Proofs.ReferenceGraph

/-!
# Texts in diagrams

Where the texts and the colours of a diagram come from. Every text is the name of a rule or stands in
a body, and in the diagram of a rule stand its name and all texts of its body. Every colour is what a
theme gives for a category, in the lightness that the theme has for the use of the colour.
-/

namespace GrammarView

namespace Expr

/-- The texts that an expression is drawn with, beside those of the expressions inside it. The name
of a reference is none of them, as a body may be drawn in its place. -/
def texts : Expr → List String
  | .token text | .terminal text | .label text => [text]
  | .tokens texts => texts
  | .foreign _ kind => [kind]
  | _ => []

/-- The texts of an expression and the name that it refers to. -/
def captions (expr : Expr) : List String :=
  expr.target?.toList ++ expr.texts

end Expr

/-- Whether a text is the name of a rule of a grammar, or stands in one of the bodies. -/
def RuleSet.HasText (grammar : RuleSet) (text : String) : Prop :=
  ∃ rule ∈ grammar.rules, text = rule.name ∨ text ∈ Expr.collect Expr.captions [rule.body]

namespace Track

variable {α : Type}

/-- The labels of a track and of all tracks inside it, in the order in which they are drawn. -/
def labels (track : Track α) : List String :=
  track.drawn.filterMap label?

variable {text : String} {extent : Extent α} {item : Track α} {items : List (Track α)}

/-- Several tracks have the labels of each. -/
theorem filterMap_drawnAll (items : List (Track α)) :
    (drawnAll items).filterMap label? = items.flatMap labels := by
  rw [drawnAll_eq_flatMap, List.filterMap_flatMap]
  rfl

@[simp]
theorem labels_sequence {gap : α} : (sequence extent gap items).labels = items.flatMap labels :=
  filterMap_drawnAll items

@[simp]
theorem labels_choice {gap : α} {optional : Bool} :
    (choice extent gap optional items).labels = items.flatMap labels :=
  filterMap_drawnAll items

@[simp]
theorem labels_stack {gap : α} : (stack extent gap items).labels = items.flatMap labels :=
  filterMap_drawnAll items

@[simp]
theorem labels_list {separator : Track α} :
    (list extent item separator).labels = separator.labels ++ item.labels :=
  List.filterMap_append

@[simp]
theorem labels_definition {name : String} {left right : α} :
    (definition extent name left right item).labels = name :: item.labels :=
  rfl

@[simp]
theorem labels_rule {stub : α} : (rule extent stub item).labels = item.labels :=
  rfl

variable [Scalar α]

@[simp]
theorem labels_boxOf {shape : Shape} : (boxOf shape text : Track α).labels = [text] :=
  rfl

/-- Measuring leaves the labels. -/
theorem labels_measure (track : Track α) : track.measure.labels = track.labels := by
  induction track using Track.inductionOn with
  | box | unknown => rfl
  | sequence | choice | stack =>
    rename_i each
    simp only [measure, measureAll_eq_map, labels_sequence, labels_choice, labels_stack,
      List.flatMap_map]
    exact List.flatMap_congr each
  | list extent item separator onward returning =>
    rw [measure, labels_list, labels_list, onward, returning]
  | definition extent name left right item inside =>
    rw [measure, labels_definition, labels_definition, inside]
  | zeroOrOne | zeroOrMore | oneOrMore | rule =>
    rename_i inside
    exact inside

/-- A part with a quantifier has the labels of the part. -/
theorem labels_quantifier (quantifier : Quantifier) :
    (quantifier.track item).labels = item.labels := by
  cases quantifier <;> cases item <;> rfl

/-- Boxes to choose from have the labels of all of them. -/
theorem labels_boxes {shape : Shape} (texts : List String) :
    (choiceOf (texts.map (boxOf shape)) : Track α).labels = texts := by
  simp [choiceOf, List.flatMap_map]

end Track

namespace Building

variable {α : Type} [Scalar α] {grammar : RuleSet} {place : Place} {before after : Option Nesting}
  {exprs : List Expr} {tracks : List (Track α)} {text : String}

/-- The labels of a leaf are its texts, or the name of the rule in whose body it stands. -/
theorem DrawsLeaf.labels_eq {owner : String} {expr : Expr} {track : Track α}
    (leaf : DrawsLeaf owner expr track) :
    track.labels = expr.texts ∨ track.labels = [owner] ∧ expr.texts = [] := by
  cases leaf with
  | aliased => exact .inr ⟨rfl, rfl⟩
  | tokens => exact .inl (Track.labels_boxes _)
  | _ => exact .inl rfl

/-- A leaf has no texts but its own. -/
theorem DrawsLeaf.collect_eq {β : Type} {own : Expr → List β} {owner : String} {expr : Expr}
    {track : Track α} (leaf : DrawsLeaf owner expr track) : Expr.collect own [expr] = own expr := by
  cases leaf <;> simp [Expr.collect, Expr.partsOfAll, Expr.parts]

/-- Every label of what is drawn is a text of the grammar, if that is so for the names and texts in
the expressions. -/
theorem Draws.hasText (draws : Draws grammar place before exprs tracks after)
    (owner : grammar.HasText place.owner)
    (known : ∀ text ∈ Expr.collect Expr.captions exprs, grammar.HasText text) :
    ∀ text ∈ tracks.flatMap Track.labels, grammar.HasText text := by
  have body {name : String} {rule : Rule} (found : grammar.get? name = some rule) :
      grammar.HasText name ∧
        ∀ text ∈ Expr.collect Expr.captions [rule.body], grammar.HasText text := by
    obtain ⟨member, rfl⟩ := RuleSet.get?_eq_some found
    exact ⟨⟨rule, member, .inl rfl⟩, fun text inside => ⟨rule, member, .inr inside⟩⟩
  induction draws with
  | nil => exact nofun
  | cons first others firstKnown othersKnown =>
    have here := firstKnown owner fun text inside =>
      known text (Expr.mem_collect_cons.mpr (.inl inside))
    have later := othersKnown owner fun text inside =>
      known text (Expr.mem_collect_cons.mpr (.inr inside))
    rw [List.flatMap_singleton] at here
    exact List.forall_mem_append.mpr ⟨here, later⟩
  | leaf leaf =>
    rw [List.flatMap_singleton]
    rcases leaf.labels_eq with texts | ⟨named, -⟩
    · rw [leaf.collect_eq] at known
      exact fun text label => known text (List.mem_append_right _ (texts ▸ label))
    · rw [named]
      exact List.forall_mem_singleton.mpr owner
  | sequence parts inductionHypothesis =>
    have inside := inductionHypothesis owner fun text inside =>
      known text (Expr.mem_collect_sequence.mpr (.inr inside))
    simpa [Track.sequenceOf] using inside
  | choice parts inductionHypothesis =>
    have inside := inductionHypothesis owner fun text inside =>
      known text (Expr.mem_collect_choice.mpr (.inr inside))
    simpa [Track.choiceOf] using inside
  | @list _ _ _ item _ _ _ parts inductionHypothesis =>
    have inside := inductionHypothesis owner fun text inside => by
      rcases Expr.mem_collect_cons.mp inside with first | second
      · exact known text (Expr.mem_collect_list.mpr (.inl first))
      · exact known text (Expr.mem_collect_list.mpr (.inr second))
    simpa [or_comm] using inside
  | quantified part inductionHypothesis =>
    have inside := inductionHypothesis owner fun text inside =>
      known text (Expr.mem_collect_quantified.mpr (.inr inside))
    rw [List.flatMap_singleton] at inside ⊢
    rwa [Track.labels_quantifier]
  | box boxed => exact List.forall_mem_singleton.mpr (known _ (.head _))
  | splice found splices free spliced inductionHypothesis =>
    obtain ⟨named, texts⟩ := body found
    exact inductionHypothesis named texts
  | panel found unit claim opened inductionHypothesis =>
    obtain ⟨named, texts⟩ := body found
    have inside := inductionHypothesis named texts
    obtain ⟨-, rfl⟩ := RuleSet.get?_eq_some found
    rw [List.flatMap_singleton] at inside ⊢
    exact List.forall_mem_cons.mpr ⟨named, inside⟩

/-- All texts of the expressions are labels of what is drawn. -/
theorem Draws.mem_labels (draws : Draws grammar place before exprs tracks after)
    (own : text ∈ Expr.collect Expr.texts exprs) : text ∈ tracks.flatMap Track.labels := by
  induction draws with
  | nil => contradiction
  | cons first others firstDrawn othersDrawn =>
    rw [List.flatMap_cons, List.mem_append]
    rcases Expr.mem_collect_cons.mp own with here | later
    · exact .inl (by simpa using firstDrawn here)
    · exact .inr (othersDrawn later)
  | leaf leaf =>
    rw [leaf.collect_eq] at own
    rw [List.flatMap_singleton]
    rcases leaf.labels_eq with texts | ⟨-, none⟩
    · exact texts ▸ own
    · rw [none] at own
      contradiction
  | sequence parts inductionHypothesis =>
    have inside := (Expr.mem_collect_sequence.mp own).resolve_left List.not_mem_nil
    simpa [Track.sequenceOf] using inductionHypothesis inside
  | choice parts inductionHypothesis =>
    have inside := (Expr.mem_collect_choice.mp own).resolve_left List.not_mem_nil
    simpa [Track.choiceOf] using inductionHypothesis inside
  | list parts inductionHypothesis =>
    have inside := (Expr.mem_collect_list.mp own).resolve_left List.not_mem_nil
    simpa [or_comm] using inductionHypothesis (Expr.mem_collect_cons.mpr (.inr inside))
  | quantified part inductionHypothesis =>
    have inside := (Expr.mem_collect_quantified.mp own).resolve_left List.not_mem_nil
    simpa [Track.labels_quantifier] using inductionHypothesis inside
  | box | splice | panel => contradiction

end Building

/-- Whether a colour has the hue that a theme gives to a category, and a lightness. -/
def Theme.IsColour (theme : Theme) (category lightness colour : String) : Prop :=
  ∃ hue, theme.hues.get? category = some hue ∧
    colour = "hsl(" ++ toString hue ++ ",100%," ++ lightness ++ ")"

/-- The colours that a theme gives for paints. -/
inductive Theme.Gives (theme : Theme) : Paint → String → Prop where
  | stroke {category colour} (made : theme.IsColour category theme.strokeLightness colour) :
    theme.Gives (.stroke category) colour
  | fill {category colour} (made : theme.IsColour category theme.fillLightness colour) :
    theme.Gives (.fill category) colour
  | frame {colour} (made : theme.IsColour "definition" theme.definitionFrame colour) :
    theme.Gives .frame colour
  | panel {colour} (made : theme.IsColour "definition" theme.definitionPanel colour) :
    theme.Gives (.panel false) colour
  | nestedPanel {colour} (made : theme.IsColour "definition" theme.definitionPanelNested colour) :
    theme.Gives (.panel true) colour
  | label {shape : Shape} {colour} (made : theme.IsColour shape.name theme.strokeLightness colour) :
    theme.Gives (.label shape) colour
  /-- A warning for what has no hue. -/
  | warning {shape : Shape} (unknown : shape.name ∉ theme.hues.names) :
    theme.Gives (.label shape) "red"
  | given {colour} : theme.Gives (.given colour) colour

section Colours

variable {theme : Theme}

/-- A colour of a category has its hue. -/
theorem isColour_of_colour {category lightness colour : String}
    (made : theme.colour category lightness = .ok colour) :
    theme.IsColour category lightness colour := by
  rw [Theme.colour] at made
  split at made
  case h_1 hue found => exact ⟨hue, found, (Except.ok.inj made).symm⟩
  case h_2 => contradiction

/-- What a paint becomes is the colour that the theme gives for it. -/
theorem gives_of_paint {paint : Paint} {colour : String} (painted : theme.paint paint = .ok colour) :
    theme.Gives paint colour := by
  cases paint with
  | stroke => exact .stroke (isColour_of_colour painted)
  | fill => exact .fill (isColour_of_colour painted)
  | frame => exact .frame (isColour_of_colour painted)
  | panel nested =>
    cases nested with
    | false => exact .panel (isColour_of_colour painted)
    | true => exact .nestedPanel (isColour_of_colour painted)
  | label shape =>
    rw [Theme.paint] at painted
    split at painted
    case isTrue => exact .label (isColour_of_colour painted)
    case isFalse unknown =>
      obtain rfl := Except.ok.inj painted
      exact .warning (mt Entries.has_iff_mem_names.mpr unknown)
  | given =>
    obtain rfl := Except.ok.inj painted
    exact .given

end Colours

namespace Figure

/-- Whether attributes have, as the values of a line and an area, what a theme gives for paints. -/
def Coloured (theme : Theme) (paints : List Paint) (attributes : Entries String) : Prop :=
  ∀ paint ∈ paints, ∃ colour, theme.Gives paint colour ∧
    (("fill", colour) ∈ attributes ∨ ("stroke", colour) ∈ attributes)

/-- Whether an element has the colours that a theme gives for the paints of a figure. -/
def IsPaintedBy {α : Type} (theme : Theme) (figure : Figure α) (element : Markup) : Prop :=
  ∃ name attributes children, element = .element name attributes children ∧
    Coloured theme figure.paints attributes

variable {theme : Theme}

/-- An outline has the colour of its paint. -/
theorem coloured_outlineStroke {outline : Option Paint} {stroke : Entries String}
    (made : outlineStroke theme outline = .ok stroke) :
    Coloured theme outline.toList stroke := by
  cases outline with
  | none => exact nofun
  | some paint =>
    obtain ⟨colour, painted, made⟩ := Validation.bind_eq_ok.mp made
    obtain rfl := Except.ok.inj made
    exact List.forall_mem_singleton.mpr ⟨colour, gives_of_paint painted, .inr (.head _)⟩

/-- Further attributes leave the colours. -/
theorem Coloured.mono {paints : List Paint} {attributes more : Entries String}
    (coloured : Coloured theme paints attributes) (further : attributes ⊆ more) :
    Coloured theme paints more := by
  intro paint member
  obtain ⟨colour, gives, stands⟩ := coloured paint member
  exact ⟨colour, gives, stands.imp (fun area => further area) fun line => further line⟩

/-- The element of a figure has the colours of its paints. -/
theorem isPaintedBy {figure : Figure Float} {element : Markup}
    (made : figure.markup theme = .ok element) : figure.IsPaintedBy theme element := by
  cases figure with
  | line | circle | arc =>
    obtain ⟨stroke, madeStroke, made⟩ := Validation.bind_eq_ok.mp made
    obtain rfl := Except.ok.inj made
    refine ⟨_, _, _, rfl, (coloured_outlineStroke (trackStroke_eq ▸ madeStroke)).mono ?_⟩
    exact fun _ stands => List.mem_append_left _ (List.mem_append_right _ stands)
  | rectangle x y width height fill outline corner =>
    obtain ⟨area, painted, made⟩ := Validation.bind_eq_ok.mp made
    obtain ⟨stroke, madeStroke, made⟩ := Validation.bind_eq_ok.mp made
    obtain rfl := Except.ok.inj made
    refine ⟨_, _, _, rfl, List.forall_mem_cons.mpr ⟨?filled, ?outlined⟩⟩
    case filled => exact ⟨area, gives_of_paint painted, .inl (by simp)⟩
    case outlined =>
      refine (coloured_outlineStroke madeStroke).mono fun _ stands => ?_
      exact List.mem_append_left _ (List.mem_append_right _ stands)
  | polygon points fill outline =>
    obtain ⟨area, painted, made⟩ := Validation.bind_eq_ok.mp made
    obtain ⟨stroke, madeStroke, made⟩ := Validation.bind_eq_ok.mp made
    obtain rfl := Except.ok.inj made
    refine ⟨_, _, _, rfl, List.forall_mem_cons.mpr ⟨?filled, ?outlined⟩⟩
    case filled => exact ⟨area, gives_of_paint painted, .inl (by simp)⟩
    case outlined =>
      exact (coloured_outlineStroke madeStroke).mono fun _ stands => List.mem_append_right _ stands
  | text x y content size style fill =>
    obtain ⟨colour, painted, made⟩ := Validation.bind_eq_ok.mp made
    obtain rfl := Except.ok.inj made
    refine ⟨_, _, _, rfl, List.forall_mem_singleton.mpr ⟨colour, gives_of_paint painted, .inl ?_⟩⟩
    exact Entries.mem_insert _ _ _

/-- The elements of figures have the colours of their paints. -/
theorem forall_isPaintedBy {figures : List (Figure Float)} {elements : List Markup}
    (made : markupAll theme figures = .ok elements) :
    List.Forall₂ (IsPaintedBy theme) figures elements := by
  induction figures generalizing elements with
  | nil =>
    obtain rfl := Except.ok.inj made
    exact .nil
  | cons figure figures inductionHypothesis =>
    rw [markupAll, List.mapM_cons] at made
    obtain ⟨element, first, made⟩ := Validation.bind_eq_ok.mp made
    obtain ⟨others, later, made⟩ := Validation.bind_eq_ok.mp made
    obtain rfl := Except.ok.inj made
    exact .cons (isPaintedBy first) (inductionHypothesis later)

end Figure

/-- The labels of the diagrams of rules, in the order in which they are drawn. -/
def RuleSet.labels (grammar : RuleSet) (nesting : Option Nesting) (rules : List Rule) :
    List String :=
  (grammar.diagramsOf nesting rules : Building.Built (List (Track Float))).1.flatMap Track.labels

/-- What is drawn of diagrams of rules. There is one text for each label, in order. The labels are
texts of the grammar, and among them are the names of the rules and all texts of their bodies. The
figures have the colours that a theme gives for them. -/
structure DrawsTexts (grammar : RuleSet) (theme : Theme) (nesting : Option Nesting)
    (rules : List Rule) (figures : List (Figure Float)) (elements : List Markup) : Prop where
  texts : Markup.contents "text" elements
    = (grammar.labels nesting rules).map fun label => [.text label]
  known : ∀ label ∈ grammar.labels nesting rules, grammar.HasText label
  own : ∀ rule ∈ rules, rule.name ∈ grammar.labels nesting rules ∧
    ∀ text ∈ Expr.collect Expr.texts [rule.body], text ∈ grammar.labels nesting rules
  colours : List.Forall₂ (Figure.IsPaintedBy theme) figures elements

/-- Whether a sheet of diagrams of rules is written as a frame around the texts of the diagrams, in the
colours of a theme. -/
def Sheet.HoldsTexts (sheet : Sheet Float) (grammar : RuleSet) (theme : Theme)
    (scale : Option Float) (nesting : Option Nesting) (rules : List Rule) : Prop :=
  ∃ elements, sheet.markup theme scale = .ok (frame elements sheet.width sheet.height scale) ∧
    DrawsTexts grammar theme nesting rules sheet.figures elements

section Diagrams

variable {α : Type} [Scalar α] {grammar : RuleSet}

/-- All labels of the diagram of a rule are texts of the grammar. -/
theorem hasText_diagram (nesting : Option Nesting) (rule : Rule) (member : rule ∈ grammar.rules) :
    ∀ label ∈ (grammar.diagram nesting rule : Building.Built (Track α)).1.labels,
      grammar.HasText label := by
  obtain ⟨item, after, built, draws⟩ := grammar.diagram_drawn (α := α) nesting rule
  have named : grammar.HasText rule.name := ⟨rule, member, .inl rfl⟩
  have inside := draws.hasText named fun text inside => ⟨rule, member, .inr inside⟩
  rw [List.flatMap_singleton] at inside
  rw [built]
  exact List.forall_mem_cons.mpr ⟨named, inside⟩

/-- The name of a rule and all texts of its body are labels of its diagram. -/
theorem mem_labels_diagram (nesting : Option Nesting) (rule : Rule) :
    rule.name ∈ (grammar.diagram nesting rule : Building.Built (Track α)).1.labels ∧
      ∀ text ∈ Expr.collect Expr.texts [rule.body],
        text ∈ (grammar.diagram nesting rule : Building.Built (Track α)).1.labels := by
  obtain ⟨item, after, built, draws⟩ := grammar.diagram_drawn (α := α) nesting rule
  rw [built]
  refine ⟨.head _, fun text inside => .tail _ ?_⟩
  have label := draws.mem_labels inside
  rwa [List.flatMap_singleton] at label

/-- Every rule has its diagram among the diagrams of several rules. -/
theorem exists_diagram_of_mem (nesting : Option Nesting) {rules : List Rule} {rule : Rule}
    (member : rule ∈ rules) : ∃ before, (grammar.diagram before rule : Building.Built (Track α)).1
      ∈ (grammar.diagramsOf nesting rules).1 := by
  induction rules generalizing nesting with
  | nil => contradiction
  | cons first rest inductionHypothesis =>
    rcases List.mem_cons.mp member with rfl | later
    · exact ⟨nesting, .head _⟩
    · obtain ⟨before, drawn⟩ := inductionHypothesis _ later
      exact ⟨before, .tail _ drawn⟩

end Diagrams

/-- What is on a sheet shows the diagrams of the sheet. -/
theorem Sheet.depicts_of_mem {α : Type} [Scalar α] {nested : Bool} {diagrams : List (Track α)}
    {sheet : Sheet α} (made : sheet ∈ ofDiagrams? nested diagrams) :
    Depicts sheet.figures (Track.stackOf diagrams).measure.drawn := by
  unfold ofDiagrams? at made
  split at made
  case isTrue => contradiction
  case isFalse =>
    obtain rfl := Option.mem_some.mp made
    exact Track.shown _ nested _ _ _

/-- A sheet of diagrams of rules holds their texts, in the colours of any theme that has the hues of
the usual one. -/
theorem Sheet.holdsTexts {grammar : RuleSet} {theme : Theme} (complete : theme.Complete)
    {nested : Bool} {nesting : Option Nesting} {rules : List Rule} (members : rules ⊆ grammar.rules)
    {sheet : Sheet Float} (made : sheet ∈ ofDiagrams? nested (grammar.diagramsOf nesting rules).1)
    (scale : Option Float) : sheet.HoldsTexts grammar theme scale nesting rules := by
  have depicts := depicts_of_mem made
  obtain ⟨elements, painted, shown⟩ := Figure.exists_markupAll complete depicts.usual
  refine ⟨elements, by rw [markup, painted]; rfl, ?texts, ?known, ?own,
    Figure.forall_isPaintedBy painted⟩
  case texts =>
    have labels : sheet.figures.filterMap Figure.caption? = grammar.labels nesting rules := by
      rw [depicts.captions, ← Track.labels, Track.labels_measure, Track.stackOf,
        Track.labels_stack, RuleSet.labels]
    rw [contents_text shown, labels]
  case known =>
    intro label member
    obtain ⟨track, listed, inside⟩ := List.mem_flatMap.mp member
    have known : ∀ track ∈ (grammar.diagramsOf (α := Float) nesting rules).1,
        ∀ label ∈ track.labels, grammar.HasText label :=
      RuleSet.forall_diagramsOf hasText_diagram nesting members
    exact known track listed label inside
  case own =>
    intro rule listed
    obtain ⟨before, drawn⟩ := exists_diagram_of_mem (α := Float) nesting listed
    obtain ⟨named, texts⟩ := mem_labels_diagram (α := Float) before rule
    exact ⟨List.mem_flatMap.mpr ⟨_, drawn, named⟩, fun text inside =>
      List.mem_flatMap.mpr ⟨_, drawn, texts text inside⟩⟩

end GrammarView
