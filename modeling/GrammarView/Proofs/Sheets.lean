import GrammarView.Diagram.Sheet
import GrammarView.Proofs.Areas
import GrammarView.Proofs.Drawings

/-!
# Sheets

A sheet is as large as its drawing. The diagrams of a sheet are below each other inside its margin,
and only the caps at their ends reach into the margin. So whatever is drawn lies on the sheet if
there is room in the diagrams for the names of their panels and for the parts of their lists.
-/

namespace GrammarView

open Grid

namespace Track

section Diagrams

variable {nested : Bool} {x y width : Rat} {gap edge : Rat} {item : Track Rat}
  {items : List (Track Rat)} {whole : Area}

/-- A diagram is drawn between its stubs, with a cap at either end. -/
theorem draw_rule {extent : Extent Rat} {stub : Rat} :
    draw nested x y width (.rule extent stub item) =
      .line (x + 1 / 5) y (x + extent.width - 1 / 5) y
      :: draw nested (x + stub) y (extent.width - stub * 2) item
      ++ [.circle x y (1 / 5), .circle (x + extent.width) y (1 / 5)] := by
  norm_num [draw]

/-- A stack is entered on the line of its first diagram. -/
theorem draw_stack {extent : Extent Rat} : draw nested x y width (.stack extent gap (item :: items))
    = drawStack nested gap x width (y - item.extent.above) (item :: items) :=
  rfl

/-- Diagrams are drawn below each other, with gaps. -/
theorem drawStack_cons : drawStack nested gap x width edge (item :: items)
    = draw nested x (edge + item.extent.above) width item
      ++ drawStack nested gap x width
        (edge + item.extent.above + (item.extent.below + gap)) items :=
  rfl

/-- Between its stubs a diagram is as wide as its panel. -/
theorem ruleExtent_inner {stub : Rat} {panel : Extent Rat} :
    (ruleExtent stub panel).width - stub * 2 = panel.width := by
  rw [ruleExtent_rat]
  ring

/-- A measured diagram with room for what is in it. -/
inductive Diagram : Track Rat → Prop where
  | rule {panel} (measured : panel.Measured) (room : panel.HasRoom panel.extent.width) :
      Diagram (.rule (ruleExtent ruleStub panel.extent) ruleStub panel)

/-- A diagram has room for a box. -/
theorem Diagram.holdsBox (diagram : Diagram item) : item.extent.HoldsBox := by
  obtain ⟨measured, room⟩ := diagram
  obtain ⟨wide, above, below⟩ := measured.holdsBox
  rw [extent, ruleExtent_rat]
  exact ⟨by rw [ruleStub_rat]; linarith, above, below⟩

/-- A diagram stays in its area, but for the caps at its ends. -/
theorem Diagram.holds (diagram : Diagram item) (left : whole.left + 1 / 5 ≤ x)
    (right : x + item.extent.width + 1 / 5 ≤ whole.right)
    (top : whole.top ≤ y - item.extent.above) (bottom : y + item.extent.below ≤ whole.bottom) :
    whole.Holds (item.draw nested x y width) := by
  obtain @⟨panel, measured, room⟩ := diagram
  have fits : panel.Fits nested panel.extent.width := measured.fits measured.staysInside room
  obtain ⟨_, _, _⟩ := measured.holdsBox
  rw [extent, ruleExtent_rat, ruleStub_rat] at right top bottom
  dsimp only at right top bottom
  rw [draw_rule, ruleExtent_inner, ruleExtent_rat, ruleStub_rat, List.cons_append,
    Area.holds_line, Area.holds_append]
  refine ⟨Area.contains_iff.mpr ?_, Area.contains_iff.mpr ?_, ?_, ?_⟩
  · and_intros <;> linarith
  · and_intros <;> linarith
  · exact fits.within (by linarith) (by linarith) top bottom
  · simp only [Area.holds_circle, Area.holds_nil, Area.contains_iff, and_true]
    and_intros <;> linarith

/-- Diagrams below each other stay in an area that is as wide as each of them with its caps, and as
high as they are together. -/
theorem drawStack_holds (gaps : 0 ≤ gap) (diagrams : ∀ item ∈ items, Diagram item)
    (left : whole.left + 1 / 5 ≤ x)
    (right : ∀ item ∈ items, x + item.extent.width + 1 / 5 ≤ whole.right)
    (top : whole.top ≤ edge)
    (bottom : edge + Extent.column gap (items.map extent) ≤ whole.bottom + gap) :
    whole.Holds (drawStack nested gap x width edge items) := by
  induction items generalizing edge with
  | nil => exact Area.holds_nil
  | cons item rest inductionHypothesis =>
    obtain ⟨here, later⟩ := List.forall_mem_cons.mp diagrams
    obtain ⟨hereRight, laterRight⟩ := List.forall_mem_cons.mp right
    obtain ⟨_, above, below⟩ := here.holdsBox
    have height : 0 ≤ Extent.column gap (rest.map extent) := Extent.column_nonneg gaps
      (List.forall_mem_map.mpr fun part member => (later part member).holdsBox.upright)
    rw [List.map_cons, Extent.column_cons] at bottom
    rw [drawStack_cons, Area.holds_append]
    constructor
    · exact here.holds left hereRight (by linarith) (by linarith)
    · exact inductionHypothesis later laterRight (by linarith) (by linarith)

end Diagrams

end Track

/-- Whether all figures of a sheet lie on it. -/
def Sheet.Contains (sheet : Sheet Rat) : Prop :=
  (⟨0, sheet.width, 0, sheet.height⟩ : Area).Holds sheet.figures

/-- Whether there is room in diagrams that are drawn below each other. -/
def RoomFor (diagrams : List (Track Rat)) : Prop :=
  (Track.stackOf diagrams).measure.HasRoom (Track.stackOf diagrams).measure.extent.width

/-- The size of a sheet in exact numbers. -/
theorem Sheet.ofStack_rat (nested : Bool) (stack : Track Rat) :
    Sheet.ofStack nested stack = ⟨stack.draw nested (1 / 2) (1 / 2 + stack.extent.above)
      stack.extent.width, stack.extent.width + 1,
      stack.extent.above + stack.extent.below + 1⟩ := by
  norm_num [Sheet.ofStack]

/-- Measured diagrams with room in a stack are diagrams with room for what is in them. -/
theorem RoomFor.diagrams {panels : List (Track Rat)}
    (measured : ∀ panel ∈ panels, panel.measure.Measured)
    (room : RoomFor (panels.map Track.ruleOf)) :
    ∀ item ∈ (panels.map Track.ruleOf).map Track.measure, item.Diagram := by
  rw [RoomFor, Track.stackOf, Track.measure, Track.measureAll_eq_map] at room
  cases room with
  | stack parts =>
    intro item member
    have here := parts item member
    rw [List.map_map] at member
    obtain ⟨panel, listed, rfl⟩ := List.mem_map.mp member
    cases here with
    | rule room =>
      rw [Track.ruleExtent_inner] at room
      exact .rule (measured panel listed) room

/-- A sheet of measured diagrams contains its drawing if there is room in them. -/
theorem Sheet.contains_ofStack {nested : Bool} {panels : List (Track Rat)} (some : panels ≠ [])
    (measured : ∀ panel ∈ panels, panel.measure.Measured)
    (room : RoomFor (panels.map Track.ruleOf)) :
    (Sheet.ofStack nested (Track.stackOf (panels.map Track.ruleOf)).measure).Contains := by
  have diagrams := room.diagrams measured
  obtain ⟨first, rest, rules⟩ : ∃ first rest,
      (panels.map Track.ruleOf).map Track.measure = first :: rest :=
    List.exists_cons_of_ne_nil (by simpa using some)
  rw [rules] at diagrams
  have gaps : (0 : Rat) ≤ stackGap := by norm_num
  have upright : ∀ part ∈ rest.map Track.extent, part.Upright :=
    List.forall_mem_map.mpr fun item member => (diagrams item (.tail _ member)).holdsBox.upright
  obtain ⟨widths, above, below⟩ :=
    Track.stackExtent_eq gaps upright fun _ => (diagrams first (.head _)).holdsBox.high
  rw [Sheet.ofStack_rat, Track.stackOf, Track.measure, Track.measureAll_eq_map, rules,
    Sheet.Contains, Track.draw_stack, List.map_cons, Track.extent, above, below]
  refine Track.drawStack_holds gaps diagrams ?_ ?_ ?_ ?_
  · norm_num
  · intro item member
    have width := widths item.extent (List.mem_map_of_mem (f := Track.extent) member)
    dsimp only
    linarith
  · dsimp only
    linarith
  · rw [List.map_cons, Extent.column_cons]
    dsimp only
    linarith

/-- What holds of the sheets of a grammar: there is one for every stack that is not empty, and it
contains its drawing if there is room in the diagrams. -/
structure SheetsContainDrawings (grammar : RuleSet) : Prop where
  /-- The sheet with the diagrams of all rules. -/
  all : grammar.diagrammed ≠ [] → ∃ sheet : Sheet Rat, grammar.sheet? = some sheet ∧
    (RoomFor (grammar.diagrams none).1 → sheet.Contains)
  /-- The sheet with the diagram of one rule. -/
  single : ∀ name rule, grammar.get? name = some rule →
    ∃ sheet : Sheet Rat, grammar.ruleSheet? name = some sheet ∧
      (RoomFor [(grammar.diagram none rule).1] → sheet.Contains)
  /-- The sheet with the composite diagram of a rule. -/
  composite : ∀ targets root rule, grammar.get? root = some rule →
    ∃ sheet : Sheet Rat, grammar.posterSheet? targets root = some sheet ∧
      (RoomFor [(grammar.diagram (some (Nesting.start targets root)) rule).1] → sheet.Contains)

/-- The sheet of the diagrams of rules contains its drawing, if the rules are roomy and there is
room in the diagrams. -/
theorem RuleSet.Roomy.sheet {grammar : RuleSet} (roomy : grammar.Roomy) (nested : Bool)
    (nesting : Option Nesting) {rules : List Rule} (members : rules ⊆ grammar.rules)
    (nonempty : rules ≠ []) {diagrams : List (Track Rat)}
    (drawn : diagrams = rules.map fun rule => (grammar.diagram nesting rule).1) :
    ∃ sheet, Sheet.ofDiagrams? nested diagrams = some sheet ∧
      (RoomFor diagrams → sheet.Contains) := by
  let panels : List (Track Rat) := rules.map fun rule =>
    Building.panel rule (Building.build grammar (grammar.topPlace rule) nesting rule.body).1
  have around : diagrams = panels.map Track.ruleOf := by
    rw [drawn, List.map_map]
    rfl
  have some : panels ≠ [] := by simpa [panels] using nonempty
  have measured : ∀ panel ∈ panels, panel.measure.Measured :=
    List.forall_mem_map.mpr fun rule member => roomy.measured_panel (members member) nesting
  refine ⟨Sheet.ofStack nested (Track.stackOf diagrams).measure, ?_, fun room => ?_⟩
  · rw [Sheet.ofDiagrams?, if_neg (by simpa [around] using some)]
  · subst around
    exact Sheet.contains_ofStack some measured room

/-- Every sheet contains its drawing, if no margin is negative, nothing in the bodies is empty, and
there is room in the diagrams for the names of panels and for the parts of lists. -/
theorem sheets_contain_drawings {grammar : RuleSet} (roomy : grammar.Roomy) :
    SheetsContainDrawings grammar := by
  constructor
  case all =>
    intro nonempty
    exact roomy.sheet false none (List.filter_subset_self _) nonempty
      (congrArg Prod.fst grammar.diagrams_eq_map)
  case single =>
    intro name rule found
    have member := (RuleSet.get?_eq_some found).1
    rw [RuleSet.ruleSheet?, found]
    exact roomy.sheet false none (List.cons_subset.mpr ⟨member, List.nil_subset _⟩)
      (List.cons_ne_nil _ _) rfl
  case composite =>
    intro targets root rule found
    have member := (RuleSet.get?_eq_some found).1
    rw [RuleSet.posterSheet?, found]
    exact roomy.sheet true _ (List.cons_subset.mpr ⟨member, List.nil_subset _⟩)
      (List.cons_ne_nil _ _) rfl

/-- Rows of cells that may be empty. -/
def cellsInRows : Entries Json :=
  [("row", .obj [("list", .str "cell"), ("separator", .obj [("token", .str ",")])]),
    ("cell", .obj [("choice", .arr [.obj [("token", .str "x")], .obj [("zeroOrMore",
      .obj [("sequence", .arr [.obj [("terminal", .str "y")], .str "row"])])]])])]

/-- The grammar of rows of cells. -/
def cellsInRowsGrammar : RuleSet :=
  ⟨[⟨"row", .list "cell" (.token ","), none, true, none, none, ["cell"], ["cell"]⟩,
    ⟨"cell", .choice [.token "x",
        .quantified .zeroOrMore (.sequence [.terminal "y", .reference "row"])], some false, true,
      none, none, ["row"], ["row"]⟩]⟩

/-- The diagram of a cell, with the body of a row in it. -/
def cellDiagram : Track Rat :=
  .ruleOf (.definition Track.unmeasured "cell" definitionMargin definitionMargin
    (.choiceOf [.boxOf .token "x", Track.repeatedly (Track.optionally (.sequenceOf
      [.boxOf .terminal "y",
        .list Track.unmeasured (Building.ruleBox "cell") (.boxOf .token ",")]))]))

/-- There is room in the diagram of a cell. -/
theorem roomFor_cellDiagram : RoomFor [cellDiagram] := by
  refine .stack (List.forall_mem_singleton.mpr ?_)
  refine .rule (.definition ?_ (.choice ?_))
  · decide +kernel
  · refine List.forall_mem_cons.mpr ⟨.box, List.forall_mem_singleton.mpr ?_⟩
    refine .oneOrMore (.zeroOrOne (.sequence ?_))
    refine List.forall_mem_cons.mpr ⟨.box, List.forall_mem_singleton.mpr ?_⟩
    refine .list ?_ nofun .box .box
    decide +kernel

/-- The sheet of the rows of cells contains its drawing. -/
theorem cells_in_rows_contained :
    validate cellsInRows false = .ok cellsInRowsGrammar ∧ cellsInRowsGrammar.Roomy ∧
      RoomFor (cellsInRowsGrammar.diagrams none).1 ∧
      ∃ sheet : Sheet Rat, cellsInRowsGrammar.sheet? = some sheet ∧ sheet.Contains := by
  have roomy : cellsInRowsGrammar.Roomy := by
    constructor
    · simp [cellsInRowsGrammar, Rule.NonnegativeMargins]
    · simp [cellsInRowsGrammar, Expr.Throughout, Expr.Filled, Expr.partsOfAll, Expr.parts]
  have diagrams : (cellsInRowsGrammar.diagrams none).1 = [cellDiagram] := by cbv
  have nonempty : cellsInRowsGrammar.diagrammed ≠ [] := by decide +kernel
  obtain ⟨sheet, drawn, contains⟩ := (sheets_contain_drawings roomy).all nonempty
  rw [diagrams] at contains ⊢
  exact ⟨by cbv, roomy, roomFor_cellDiagram, sheet, drawn, contains roomFor_cellDiagram⟩

/-- Words with one of four tokens between them. -/
def wordsInBetween : Entries Json :=
  [("words-and-separators", .obj [("list", .str "word"),
      ("separator", .obj [("tokens", .arr [.str "a", .str "b", .str "c", .str "d"])])]),
    ("word", .obj [("token", .str "x")])]

/-- The grammar of the words. -/
def wordsInBetweenGrammar : RuleSet :=
  ⟨[⟨"words-and-separators", .list "word" (.tokens ["a", "b", "c", "d"]), none, true, none, none,
      ["word"], []⟩,
    ⟨"word", .token "x", none, true, none, none, [], ["words-and-separators"]⟩]⟩

/-- Though no margin is negative, the tab with the name of the words is cut off on the right, and
their separators are cut off below. -/
theorem words_cut_off :
    validate wordsInBetween false = .ok wordsInBetweenGrammar ∧
      (∀ rule ∈ wordsInBetweenGrammar.rules, rule.NonnegativeMargins) ∧
      ∃ sheet : Sheet Rat, wordsInBetweenGrammar.sheet? = some sheet ∧
        (∃ figure ∈ sheet.figures, ∃ point ∈ figure.outermost, sheet.width < point.1) ∧
        (∃ figure ∈ sheet.figures, ∃ point ∈ figure.outermost, sheet.height < point.2) := by
  have cut : (wordsInBetweenGrammar.sheet? : Option (Sheet Rat)).any (fun sheet =>
      (sheet.figures.any fun figure => figure.outermost.any fun point =>
        decide (sheet.width < point.1)) &&
      sheet.figures.any fun figure => figure.outermost.any fun point =>
        decide (sheet.height < point.2)) = true := by cbv
  obtain ⟨sheet, drawn, cut⟩ := Option.any_eq_true _ _ |>.mp cut
  refine ⟨by cbv, ?_, sheet, drawn, ?_⟩
  · simp [wordsInBetweenGrammar, Rule.NonnegativeMargins]
  · simpa only [Bool.and_eq_true, List.any_eq_true, decide_eq_true_eq] using cut

end GrammarView
