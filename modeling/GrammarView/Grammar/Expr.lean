/-!
# Expressions of a grammar

The body of a rule. An expression refers to other rules by name and never holds them, so a
grammar with cycles is still a finite list of finite expressions.
-/

namespace GrammarView

/-- How often a part may occur. -/
inductive Quantifier where
  | zeroOrOne
  | zeroOrMore
  | oneOrMore
  deriving DecidableEq, Repr

/-- An expression of a grammar. -/
inductive Expr where
  /-- A word of the language, as it is written. -/
  | token (text : String)
  /-- A class of characters or words, by its name. -/
  | terminal (text : String)
  /-- Another name of the rule that it stands in. -/
  | aliased (text : String)
  /-- A text that looks like a rule and refers to none. -/
  | label (text : String)
  /-- One of several words of the language. -/
  | tokens (texts : List String)
  /-- All parts, one after the other. -/
  | sequence (items : List Expr)
  /-- One of the parts. -/
  | choice (items : List Expr)
  /-- A rule at least once, with the separator between its occurrences. -/
  | list (item : String) (separator : Expr)
  /-- A part as often as the quantifier says. -/
  | quantified (quantifier : Quantifier) (item : Expr)
  /-- The rule of that name. -/
  | reference (name : String)
  /-- A part of no known kind, with the text it is reported by and the name of its kind. -/
  | foreign (shown kind : String)
  deriving Repr

namespace Expr

/-- Whether an expression is a part with a quantifier. -/
def isQuantified : Expr → Bool
  | .quantified _ _ => true
  | _ => false

/-- Whether an expression offers alternatives at its top. -/
def isAlternative : Expr → Bool
  | .choice _ => true
  | .tokens _ => true
  | _ => false

end Expr

end GrammarView
