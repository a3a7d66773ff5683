import GrammarView.Proofs.DrawnTexts
import GrammarView.Proofs.ListedTexts
import GrammarView.Proofs.Spans
import GrammarView.Proofs.WrittenMarkup
import GrammarView.View

/-!
# Reading written views

No text of a grammar and none of a theme can break the markup of a view. Whatever the names and
the texts are, a listing and a diagram read as the trees that they were written from, and these trees
hold the names and the texts of the grammar and the colours of the theme as they are.
-/

namespace GrammarView

open Markup

namespace Html

/-- A text in an element with a class is named. -/
theorem named_classed {name : String} (isName : IsName name) (className content : String) :
    Named (.element name [("class", className)] [.text content]) :=
  .element isName (keyed_of_names ["class"] rfl (by decide)) (List.forall_mem_singleton.mpr .text)

/-- The markup of a lexeme is named. -/
theorem named_spell (lexeme : Lexeme) : Named (spell lexeme) := by
  have span (className content : String) : Named (span className content) :=
    named_classed (by decide) className content
  cases lexeme with
  | rule name => exact span _ _
  | token text => exact span _ _
  | terminal text => exact span _ _
  | unknown => exact .text
  | gap | bar | opening | closing => exact .written (by decide)
  | mark quantifier => cases quantifier <;> exact .written (by decide)

/-- The markup of a production is named. -/
theorem named_trees (production : Production) : ∀ tree ∈ trees production, Named tree := by
  intro tree member
  rcases exists_of_mem_trees member with rfl | ⟨mark, plain, rfl⟩ | ⟨_, -, lexeme, -, rfl⟩
  · exact named_spell (.rule production.name)
  · exact .written plain
  · exact named_spell lexeme

/-- The markup of a grammar is named. -/
theorem named_listing (grammar : RuleSet) (collapsed annotated : Bool) :
    ∀ tree ∈ listing grammar collapsed annotated, Named tree := by
  have entry (rule : Rule) : Named (entry grammar collapsed rule) :=
    .element (by decide) (by decide) (named_trees _)
  have remark (rule : Rule) : Named (annotate grammar collapsed rule) := by
    unfold annotate
    dsimp only
    split_ifs <;> exact named_classed (by decide) _ _
  intro tree member
  obtain ⟨rule, -, shown⟩ := List.mem_flatMap.mp member
  rcases List.mem_cons.mp shown with rfl | beside
  · exact entry rule
  · split at beside
    case isTrue => exact List.mem_singleton.mp beside ▸ remark rule
    case isFalse => contradiction

end Html

/-- The element of a figure is named. -/
theorem Figure.IsShownBy.named {α : Type} {figure : Figure α} {element : Markup}
    (shown : figure.IsShownBy element) : Named element := by
  obtain ⟨attributes, keyed, rfl⟩ := shown
  refine .element ?_ keyed (List.forall_mem_map.mpr fun _ _ => .text)
  cases figure <;> simp only [Figure.elementName] <;> decide

/-- A frame around named trees is named. -/
theorem named_frame {content : List Markup} (named : ∀ tree ∈ content, Named tree)
    (width height : Float) (scale : Option Float) : Named (frame content width height scale) := by
  unfold frame
  dsimp only
  split
  case h_1 =>
    have group {transform : String} : Named (.element "g" [("transform", transform)] content) :=
      .element (by decide) (keyed_of_names ["transform"] rfl (by decide)) named
    exact .element (by decide)
      (keyed_of_names ["xmlns", "version", "width", "height"] rfl (by decide))
      (List.forall_mem_singleton.mpr group)
  case h_2 =>
    exact .element (by decide) (keyed_of_names ["xmlns", "version", "viewBox"] rfl (by decide))
      named

namespace Sheet

/-- Whether a sheet has figures that every complete theme can paint. -/
def Paintable (sheet : Sheet Float) : Prop :=
  ∀ figure ∈ sheet.figures, figure.Usual

/-- A sheet of diagrams can be painted. -/
theorem paintable_of_mem {nested : Bool} {diagrams : List (Track Float)} {sheet : Sheet Float}
    (made : sheet ∈ ofDiagrams? nested diagrams) : sheet.Paintable :=
  (depicts_of_mem made).usual

/-- A sheet of the diagrams of a rule that is looked up can be painted. -/
theorem paintable_of_mem_bind {rule? : Option Rule} {nested : Bool}
    {diagrams : Rule → List (Track Float)} {sheet : Sheet Float}
    (made : sheet ∈ rule?.bind fun rule => ofDiagrams? nested (diagrams rule)) :
    sheet.Paintable := by
  obtain ⟨rule, -, drawn⟩ := Option.mem_bind_iff.mp made
  exact paintable_of_mem drawn

/-- A sheet that can be painted becomes a tree whose names can be read. -/
theorem exists_named {theme : Theme} (complete : theme.Complete) {sheet : Sheet Float}
    (paintable : sheet.Paintable) (scale : Option Float) :
    ∃ tree, sheet.markup theme scale = .ok tree ∧ Named tree := by
  obtain ⟨elements, made, shown⟩ := Figure.exists_markupAll complete paintable
  refine ⟨_, by rw [markup, made]; rfl, named_frame (fun element member => ?_) _ _ _⟩
  obtain ⟨figure, -, shownBy⟩ := Validation.exists_left_of_mem shown member
  exact shownBy.named

end Sheet

namespace View

/-- The trees of a sheet; there are none without a sheet. -/
def treesOf? (config : Config) : Option (Sheet Float) → Except MissingHue (List Markup)
  | none => .ok []
  | some sheet => (sheet.markup config.theme config.scale).map fun tree => [tree]

/-- Whether a view is written from trees and reads as those trees. -/
def ReadsAs (view : View) (trees : List Markup) : Prop :=
  view.text = writeAll trees ∧ read? view.text.toList = some (joinedAll trees)

/-- Whether there is a view of a sheet that reads as the trees of the sheet. -/
def SheetReadsBack (config : Config) (sheet? : Option (Sheet Float)) : Prop :=
  ∃ trees view, treesOf? config sheet? = .ok trees ∧ ofSheet? config sheet? = .ok view
    ∧ view.ReadsAs trees

/-- Whether a sheet that there is holds the texts of the diagrams of rules, and the colours of the
views. -/
def SheetHoldsTexts (config : Config) (grammar : RuleSet) (nesting : Option Nesting)
    (rules : List Rule) (sheet? : Option (Sheet Float)) : Prop :=
  ∀ sheet ∈ sheet?, sheet.HoldsTexts grammar config.theme config.scale nesting rules

/-- The views of a grammar that read as the trees that they are written from, and the texts that
these trees hold. -/
structure ReadBack (grammar : RuleSet) (config : Config) : Prop where
  listing : ∀ collapsed annotated,
    (htmlOf grammar collapsed annotated).ReadsAs (Html.listing grammar collapsed annotated)
  all : SheetReadsBack config grammar.sheet?
  single : ∀ name, SheetReadsBack config (grammar.ruleSheet? name)
  composite : ∀ targets root, SheetReadsBack config (grammar.posterSheet? targets root)
  /-- The trees of a listing show the rules that are listed, one after the other. -/
  listingTexts : ∀ collapsed annotated, ∃ groups,
    List.Forall₂ (fun rule => Html.ShowsRule grammar collapsed rule annotated)
      (Html.listed grammar collapsed annotated) groups ∧
    Html.listing grammar collapsed annotated = groups.flatten
  allTexts : SheetHoldsTexts config grammar none grammar.diagrammed grammar.sheet?
  singleTexts : ∀ name, ∀ rule ∈ grammar.get? name,
    SheetHoldsTexts config grammar none [rule] (grammar.ruleSheet? name)
  compositeTexts : ∀ targets root, ∀ rule ∈ grammar.get? root,
    SheetHoldsTexts config grammar (some (Nesting.start targets root)) [rule]
      (grammar.posterSheet? targets root)

/-- Named trees are read back from the view that is written from them. -/
theorem readsAs_of_named {trees : List Markup} (named : ∀ tree ∈ trees, Named tree)
    {notices : List Notice} : ReadsAs ⟨writeAll trees, notices⟩ trees :=
  ⟨rfl, by rw [writeAll, String.toList_ofList, read?_writeTrees named]⟩

/-- The view of a sheet that can be painted reads as its trees. -/
theorem sheetReadsBack {config : Config} (complete : config.theme.Complete)
    {sheet? : Option (Sheet Float)} (paintable : ∀ sheet ∈ sheet?, sheet.Paintable) :
    SheetReadsBack config sheet? := by
  cases sheet? with
  | none => exact ⟨[], ⟨"", []⟩, rfl, rfl, rfl, rfl⟩
  | some sheet =>
    obtain ⟨tree, made, named⟩ := Sheet.exists_named complete (paintable sheet rfl) config.scale
    refine ⟨[tree], ⟨tree.write, []⟩, by rw [treesOf?, made]; rfl, by rw [ofSheet?, made], ?_⟩
    have same : tree.write = writeAll [tree] := by
      rw [write, writeAll, writeTrees, writeTrees, List.append_nil]
    rw [same]
    exact readsAs_of_named (List.forall_mem_singleton.mpr named)

/-- The sheet with the diagram of a rule that is looked up holds the texts of the diagram. -/
theorem sheetHoldsTexts_of_get? {grammar : RuleSet} {config : Config}
    (complete : config.theme.Complete) {name : String} {rule : Rule}
    (found : grammar.get? name = some rule) (nested : Bool) (nesting : Option Nesting) :
    SheetHoldsTexts config grammar nesting [rule] ((grammar.get? name).bind fun rule =>
      Sheet.ofDiagrams? nested [(grammar.diagram nesting rule).1]) := by
  rw [found]
  exact fun sheet made => Sheet.holdsTexts complete
    (List.cons_subset.mpr ⟨(RuleSet.get?_eq_some found).1, List.nil_subset _⟩) made config.scale

/-- No text can break a view. With a theme that has the hues of the usual one, every listing and
every diagram of a grammar reads as the trees that it is written from. The trees of a listing hold
the names and the words of the grammar, those of a diagram its labels and the colours of the
theme. -/
theorem views_read_back (grammar : RuleSet) {config : Config} (complete : config.theme.Complete) :
    ReadBack grammar config where
  listing collapsed annotated := readsAs_of_named (Html.named_listing grammar collapsed annotated)
  all := sheetReadsBack complete fun _ => Sheet.paintable_of_mem
  single _ := sheetReadsBack complete fun _ => Sheet.paintable_of_mem_bind
  composite _ _ := sheetReadsBack complete fun _ => Sheet.paintable_of_mem_bind
  listingTexts := Html.exists_showsRule grammar
  allTexts _ made := Sheet.holdsTexts complete (List.filter_subset_self _) made config.scale
  singleTexts _ _ found := sheetHoldsTexts_of_get? complete found false none
  compositeTexts _ _ _ found := sheetHoldsTexts_of_get? complete found true _

/-- A grammar whose name and texts look like markup. -/
def markupGrammar : RuleSet :=
  ⟨[⟨"</pre>", .sequence [.token "&lt;", .terminal "\"/>", .quantified .zeroOrOne
      (.reference "</pre>")], none, true, none, none, ["</pre>"], ["</pre>"]⟩]⟩

/-- A theme whose colours look like markup. -/
def markupTheme : Theme :=
  { Theme.standard with strokeLightness := "\"/><g fill=\"", definitionFrame := "&quot;" }

/-- Views in colours that look like markup. -/
def markupColours : Config :=
  { Config.standard with theme := markupTheme }

/-- The block of the rule, with its texts joined. -/
def markupBlock : Markup :=
  .element "pre" [] [.element "span" [("class", "rule")] [.text "<</pre>>"], .text " ::= ",
    .element "span" [("class", "token")] [.text "'&lt;'"], .text " ",
    .element "span" [("class", "terminal")] [.text "[\"/>]"], .text " ",
    .element "span" [("class", "rule")] [.text "<</pre>>"], .text "?"]

/-- The labels of the diagram of the rule. -/
theorem labels_markupGrammar : markupGrammar.labels none markupGrammar.diagrammed
    = ["</pre>", "&lt;", "\"/>", "</pre>"] := by
  have optional (item : Track Float) : (Track.optionally item).labels = item.labels :=
    Track.labels_quantifier .zeroOrOne
  simp [RuleSet.labels, RuleSet.diagrammed, markupGrammar, RuleSet.diagramsOf, RuleSet.diagram,
    Building.build, Building.buildAll, Building.buildReference, Rule.isDiagrammed,
    RuleSet.topPlace, RuleSet.get?, RuleSet.names, Rule.isUnit, Rule.drawnInline,
    Building.ruleBox, Track.sequenceOf, Building.panel, Track.ruleOf, Rule.isUsedElsewhere,
    optional]

/-- What looks like markup is text when it is read: in a listing, in a remark, in the labels of a
diagram and in its colours. -/
theorem markup_in_texts_read_back : markupColours.theme.Complete
    ∧ ReadBack markupGrammar markupColours
    ∧ joinedAll (Html.listing markupGrammar true false) = [markupBlock]
    ∧ joinedAll (Html.listing markupGrammar true true)
      = [markupBlock, .element "div" [("class", "used")] [.text "Used by </pre>"]]
    ∧ ∃ sheet elements, markupGrammar.sheet? = some sheet
      ∧ sheet.markup markupTheme none = .ok (frame elements sheet.width sheet.height none)
      ∧ contents "text" elements
        = [[.text "</pre>"], [.text "&lt;"], [.text "\"/>"], [.text "</pre>"]]
      ∧ ∃ name attributes children, .element name attributes children ∈ elements
        ∧ "hsl(184,100%,&quot;)" ∈ attributes.map Prod.snd := by
  have complete : markupColours.theme.Complete := by decide
  have readBack := views_read_back markupGrammar complete
  refine ⟨complete, readBack, by cbv, by cbv, ?_⟩
  have framed : (markupGrammar.sheet? : Option (Sheet Float)).any (fun sheet =>
      sheet.figures.any fun figure => figure.paints.contains .frame) = true := by decide +kernel
  obtain ⟨sheet, drawn, framed⟩ := Option.any_eq_true _ _ |>.mp framed
  obtain ⟨figure, member, paint⟩ := List.any_eq_true.mp framed
  obtain ⟨elements, made, texts, -, -, colours⟩ := readBack.allTexts sheet drawn
  rw [labels_markupGrammar] at texts
  refine ⟨sheet, elements, drawn, made, texts, ?_⟩
  obtain ⟨_, inside, name, attributes, children, rfl, coloured⟩ :=
    Validation.exists_left_of_mem colours.flip member
  obtain ⟨colour, gives, stands⟩ := coloured .frame (List.contains_iff_mem.mp paint)
  refine ⟨name, attributes, children, inside, ?_⟩
  cases gives with
  | frame isColour =>
    obtain ⟨hue, found, rfl⟩ := isColour
    obtain rfl : 184 = hue := Option.some.inj found
    rcases stands with area | line
    · exact List.mem_map_of_mem area
    · exact List.mem_map_of_mem line

end View

end GrammarView
