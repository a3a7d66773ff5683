import GrammarView.Diagram.Building
import GrammarView.Diagram.Svg

/-!
# Sheets

A whole drawing: diagrams below each other with a margin around them. The figures and the size of
a sheet are the same definitions for every kind of numbers; a sheet in doubles can be written as a
vector graphic.
-/

namespace GrammarView

/-- A drawing with its size. -/
structure Sheet (α : Type) where
  figures : List (Figure α)
  width : α
  height : α

namespace Sheet

/-- The sheet of a measured stack of diagrams. -/
def ofStack {α : Type} [Scalar α] (nested : Bool) (stack : Track α) : Sheet α :=
  let margin : α := Grid.sheetMargin
  let extent := stack.extent
  ⟨stack.draw nested margin (margin + extent.above) extent.width, extent.width + 2.0 * margin,
    extent.above + extent.below + 2.0 * margin⟩

/-- The sheet of diagrams, none when there are no diagrams. -/
def ofDiagrams? {α : Type} [Scalar α] (nested : Bool) (diagrams : List (Track α)) :
    Option (Sheet α) :=
  if diagrams.isEmpty then none else some (ofStack nested (Track.stackOf diagrams).measure)

/-- The vector graphic of a sheet. -/
def markup (theme : Theme) (scale : Option Float) (sheet : Sheet Float) :
    Except MissingHue Markup := do
  let content ← Figure.markupAll theme sheet.figures
  return frame content sheet.width sheet.height scale

end Sheet

namespace RuleSet

variable {α : Type} [Scalar α]

/-- The sheet with the diagrams of all rules that have one. -/
def sheet? (grammar : RuleSet) : Option (Sheet α) :=
  Sheet.ofDiagrams? false (grammar.diagrams none).1

/-- The sheet with the diagram of one rule. -/
def ruleSheet? (grammar : RuleSet) (name : String) : Option (Sheet α) :=
  (grammar.get? name).bind fun rule => Sheet.ofDiagrams? false [(grammar.diagram none rule).1]

/-- The sheet with the composite diagram of a rule. -/
def posterSheet? (grammar : RuleSet) (targets : Entries (Option String)) (root : String) :
    Option (Sheet α) :=
  (grammar.get? root).bind fun rule =>
    Sheet.ofDiagrams? true [(grammar.diagram (some (Nesting.start targets root)) rule).1]

end RuleSet

end GrammarView
