import GrammarView.Entries

/-!
# Nested definitions

Which rules become panels inside one composite diagram. A rule may be tied to the definition that
it belongs into, or be spliced without a panel; a rule that is not mentioned becomes a panel where
it is first met. No rule becomes a panel twice, and the root, which is the diagram itself, never
does.
-/

namespace GrammarView

/-- How a reference is drawn in a composite diagram. -/
inductive Expansion where
  /-- As a panel with the definition of the rule. -/
  | definition
  /-- As a box with the name of the rule. -/
  | box
  /-- By the body of the rule, without a panel. -/
  | splice
  deriving DecidableEq, Repr

/-- The name of a way to draw a reference. -/
def Expansion.name : Expansion → String
  | .definition => "Definition"
  | .box => "Box"
  | .splice => "Splice"

/-- The rules that are tied to a definition, or to none so that they are spliced, and the panels
that have been opened so far, each with the definition in which it was opened. -/
structure Nesting where
  targets : Entries (Option String)
  opened : Entries (Option String)

namespace Nesting

/-- The nesting of a diagram that has only its root. -/
def start (targets : Entries (Option String)) (root : String) : Nesting :=
  ⟨targets, [(root, none)]⟩

/-- Opens a panel. -/
def opening (nesting : Nesting) (name : String) (context : Option String) : Nesting :=
  { nesting with opened := nesting.opened ++ [(name, context)] }

/-- Claims a rule from a definition: how the reference is drawn, and the nesting afterwards. -/
def claim (nesting : Nesting) (name : String) (context : Option String) : Expansion × Nesting :=
  if nesting.opened.has name then (.box, nesting)
  else
    match nesting.targets.get? name with
    | none => (.definition, nesting.opening name context)
    | some none => (.splice, nesting)
    | some target =>
      if target = context then (.definition, nesting.opening name context) else (.box, nesting)

end Nesting

end GrammarView
