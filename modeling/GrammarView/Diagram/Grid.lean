import GrammarView.Diagram.Scalar

/-!
# Measures of a diagram

The lengths that all diagrams are built from, in units of the grid.
-/

namespace GrammarView.Grid

variable {α : Type} [Scalar α]

/-- The radius of every arc of a track. -/
def arcRadius : α := 0.5

/-- The height of a box. -/
def boxHeight : α := 0.8

/-- The size of the text in a box, relative to the box. -/
def fontRatio : α := 0.7

/-- The gap between the parts of a sequence. -/
def sequenceGap : α := 0.5

/-- The gap between the branches of a choice. -/
def choiceGap : α := 0.2

/-- The gap between the diagrams of a stack. -/
def stackGap : α := 1.0

/-- The length of the stubs at the ends of a diagram. -/
def ruleStub : α := 0.5

/-- The radius of the caps at the ends of a diagram. -/
def capRadius : α := 0.2

/-- The margin at either side of a definition for which none is given. -/
def definitionMargin : α := 0.5

/-- How far a definition reaches above what it defines. -/
def definitionBanner : α := 2.25

/-- How far a definition reaches below what it defines. -/
def definitionFooter : α := 1.0

/-- The width of the lines of a diagram. -/
def strokeWidth : α := 0.1

/-- The margin around a whole drawing. -/
def sheetMargin : α := 0.5

/-- The width of a box around a text. -/
def boxWidth (text : String) : α :=
  Scalar.ofCount text.length * 0.3 + 1.0

/-- The width of the tab that carries the name of a definition. -/
def tabWidth (name : String) : α :=
  Scalar.ofCount name.length * 0.36 + 0.4

end GrammarView.Grid
