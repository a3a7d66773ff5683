import GrammarView.Grammar.Expr

/-!
# Tags of a description

The words under which a description keeps the parts of a rule. Every part has exactly one tag;
all other words that may stand beside it are settings.
-/

namespace GrammarView

/-- The tags that hold one text. -/
inductive LeafTag where
  | token
  | terminal
  | aliased
  | label
  deriving DecidableEq, Repr

/-- The expression under a tag that holds one text. -/
def LeafTag.expr : LeafTag → String → Expr
  | .token => .token
  | .terminal => .terminal
  | .aliased => .aliased
  | .label => .label

/-- The tags of a description. -/
inductive Tag where
  | leaf (leaf : LeafTag)
  | tokens
  | sequence
  | choice
  | list
  | quantified (quantifier : Quantifier)
  deriving DecidableEq, Repr

namespace Tag

/-- The tags with their words. -/
def table : List (String × Tag) :=
  [("token", .leaf .token), ("terminal", .leaf .terminal), ("alias", .leaf .aliased),
    ("rule", .leaf .label), ("tokens", .tokens), ("sequence", .sequence), ("choice", .choice),
    ("list", .list), ("zeroOrOne", .quantified .zeroOrOne),
    ("zeroOrMore", .quantified .zeroOrMore), ("oneOrMore", .quantified .oneOrMore)]

/-- The tag of a word. -/
def ofWord? (word : String) : Option Tag :=
  table.lookup word

/-- The settings, words that may stand beside the tag of a part. -/
def settings : List String :=
  ["name", "refs", "inline", "collapse", "railroad", "separator", "left", "right", "end"]

/-- The word of an expression's tag. A reference has none, as it is written as a name. -/
def wordOf : Expr → String
  | .token _ => "token"
  | .terminal _ => "terminal"
  | .aliased _ => "alias"
  | .label _ => "rule"
  | .tokens _ => "tokens"
  | .sequence _ => "sequence"
  | .choice _ => "choice"
  | .list _ _ => "list"
  | .quantified .zeroOrOne _ => "zeroOrOne"
  | .quantified .zeroOrMore _ => "zeroOrMore"
  | .quantified .oneOrMore _ => "oneOrMore"
  | .reference _ => "ref"
  | .foreign _ _ => "unknown"

end Tag

end GrammarView
