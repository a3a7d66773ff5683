import GrammarView.Listing.Production
import GrammarView.Markup

/-!
# Hypertext listings

A grammar as hypertext: one preformatted block for every rule, in which names, tokens and
terminals are marked by spans. A collapsed listing leaves out the rules that it shows in the
place of their references; an annotated one shows all of them and says where each is used.
-/

namespace GrammarView.Html

/-- A text in a span of a class. -/
def span (className content : String) : Markup :=
  .element "span" [("class", className)] [.text content]

/-- A name of a rule. -/
def spanRule (name : String) : Markup :=
  span "rule" ("<" ++ name ++ ">")

/-- A token. -/
def spanToken (text : String) : Markup :=
  span "token" ("'" ++ text ++ "'")

/-- A terminal. -/
def spanTerminal (text : String) : Markup :=
  span "terminal" ("[" ++ text ++ "]")

/-- The markup of a lexeme. Punctuation needs no escaping and is written as it is. -/
def spell : Lexeme → Markup
  | .rule name => spanRule name
  | .token text => spanToken text
  | .terminal text => spanTerminal text
  | .unknown _ => .text "<unknown>"
  | lexeme => .written lexeme.punctuation

/-- The printed form of a rule, in a collapsed listing with references replaced. -/
def production (grammar : RuleSet) (collapsed : Bool) (rule : Rule) : Production :=
  grammar.production (fun name => if collapsed then grammar.collapsedBody? name else none) rule

/-- The markup of a production. Names are two characters wider than in themselves, as they are
shown in angle brackets. -/
def trees (production : Production) : List Markup :=
  spanRule production.name :: .written Production.defines
    :: [Markup.written (Production.continuation (production.name.length + 2))].intercalate
      (production.alternatives.map fun lexemes => lexemes.map spell)

/-- Whether a rule is shown in the place of its references. -/
def isCollapsed (grammar : RuleSet) (collapsed : Bool) (rule : Rule) : Bool :=
  collapsed && grammar.collapses rule.name

/-- The block of a rule. -/
def entry (grammar : RuleSet) (collapsed : Bool) (rule : Rule) : Markup :=
  .element "pre" [] (trees (production grammar collapsed rule))

/-- The remark on where a rule is used. -/
def annotate (grammar : RuleSet) (collapsed : Bool) (rule : Rule) : Markup :=
  let users := ", ".intercalate (grammar.referrers rule.name)
  let remark (className content : String) : Markup :=
    .element "div" [("class", className)] [.text content]
  if users = "" then remark "unused" "Unused"
  else if isCollapsed grammar collapsed rule then remark "collapsed" ("Collapsed into " ++ users)
  else remark "used" ("Used by " ++ users)

/-- The rules that have a block of their own. -/
def listed (grammar : RuleSet) (collapsed annotated : Bool) : List Rule :=
  grammar.rules.filter fun rule => annotated || !isCollapsed grammar collapsed rule

/-- The markup of a grammar. -/
def listing (grammar : RuleSet) (collapsed annotated : Bool) : List Markup :=
  (listed grammar collapsed annotated).flatMap fun rule =>
    entry grammar collapsed rule
      :: if annotated then [annotate grammar collapsed rule] else []

end GrammarView.Html
