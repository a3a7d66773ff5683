import GrammarView.Listing.Inlining
import GrammarView.Text.Blank
import GrammarView.Text.Lines

/-!
# Productions

The printed form of a rule as a list of lexemes, still without a spelling. A choice at the top of
a rule is printed as alternatives of their own; anywhere else alternatives stand in parentheses,
and so does a sequence that a quantifier applies to.
-/

namespace GrammarView

/-- The smallest parts of a printed rule. -/
inductive Lexeme where
  | rule (name : String)
  | token (text : String)
  | terminal (text : String)
  /-- A part of no known kind, with the text it is reported by. -/
  | unknown (shown : String)
  | gap
  | bar
  | opening
  | closing
  | mark (quantifier : Quantifier)
  deriving DecidableEq, Repr

/-- Lexemes in parentheses. -/
def Lexeme.group (lexemes : List Lexeme) : List Lexeme :=
  .opening :: lexemes ++ [.closing]

/-- Lexemes, in parentheses if need be. -/
def Lexeme.groupIf (needed : Bool) (lexemes : List Lexeme) : List Lexeme :=
  if needed then Lexeme.group lexemes else lexemes

mutual

/-- The lexemes of an expression. `operand` says that a quantifier follows, `whole` that the
expression is a whole body. -/
def Expr.lexemes (whole operand : Bool) : Expr → List Lexeme
  | .token text => [.token text]
  | .terminal text => [.terminal text]
  | .aliased text => [.rule text]
  | .label text => [.rule text]
  | .reference name => [.rule name]
  | .foreign shown _ => [.unknown shown]
  | .tokens texts =>
    Lexeme.groupIf (!whole) ([Lexeme.bar].intercalate (texts.map fun text => [.token text]))
  | .choice items =>
    Lexeme.groupIf (!whole) ([Lexeme.bar].intercalate (Expr.lexemesOfAll items))
  | .sequence items =>
    Lexeme.groupIf operand ([Lexeme.gap].intercalate (Expr.lexemesOfAll items))
  | .list item separator =>
    Lexeme.groupIf operand
      (Lexeme.group (.rule item :: .gap :: separator.lexemes false false)
        ++ [.mark .zeroOrMore, .gap, .rule item])
  | .quantified quantifier item =>
    Lexeme.groupIf item.isQuantified (item.lexemes false true) ++ [.mark quantifier]

/-- The lexemes of each of several expressions. -/
def Expr.lexemesOfAll : List Expr → List (List Lexeme)
  | [] => []
  | item :: rest => item.lexemes false false :: Expr.lexemesOfAll rest

end

/-- A printed rule: its name and its alternatives. -/
structure Production where
  name : String
  alternatives : List (List Lexeme)
  deriving Repr

/-- The names that may be replaced in the body of a rule: all but its own. -/
def RuleSet.replaceable (grammar : RuleSet) (rule : Rule) : List String :=
  grammar.names.erase rule.name

/-- The printed form of a rule, its references replaced by the bodies that they have. A rule that
is a list is printed as the recursion it abbreviates. -/
def RuleSet.production (grammar : RuleSet) (body? : String → Option Expr) (rule : Rule) :
    Production :=
  let inlined (expr : Expr) : Expr := expr.inlined body? (grammar.replaceable rule)
  let alternatives :=
    match rule.body with
    | .choice items => items.map fun item => (inlined item).lexemes false false
    | .list item separator =>
      let item := (inlined (.reference item)).lexemes false false
      let separator := (inlined separator).lexemes false false
      [item, .rule rule.name :: .gap :: separator ++ .gap :: item]
    | body => [(inlined body).lexemes true false]
  ⟨rule.name, alternatives⟩

/-- The reports of the parts of no known kind in a printed rule, in order. -/
def Production.unknowns (production : Production) : List String :=
  production.alternatives.flatten.filterMap fun lexeme =>
    match lexeme with
    | .unknown shown => some shown
    | _ => none

/-- What stands between the name of a rule and its alternatives. -/
def Production.defines : String :=
  " ::= "

/-- What stands between two alternatives of a rule whose name is shown in the given width: a new
line with a bar under the end of the defining mark. -/
def Production.continuation (width : Nat) : String :=
  String.ofList ('\n' :: List.replicate (width + 3) ' ' ++ ['|', ' '])

/-- The mark of a quantifier. -/
def Quantifier.mark : Quantifier → String
  | .zeroOrOne => "?"
  | .zeroOrMore => "*"
  | .oneOrMore => "+"

/-- The spelling of the lexemes that all listings spell alike. -/
def Lexeme.punctuation : Lexeme → String
  | .gap => " "
  | .bar => " | "
  | .opening => "("
  | .closing => ")"
  | .mark quantifier => quantifier.mark
  | _ => ""

/-- What follows the first occurrence of a text, nothing when it does not occur. -/
def afterFirst (mark : List Char) : List Char → List Char
  | [] => []
  | character :: rest =>
    if mark.isPrefixOf (character :: rest) then (character :: rest).drop mark.length
    else afterFirst mark rest

/-- Splits a printed rule into its alternatives. -/
def splitAlternatives (characters : List Char) : List (List Char) :=
  match linesOf (afterFirst Production.defines.toList characters) with
  | [] => []
  | line :: lines => line :: lines.map fun line => (trimBlanks line).drop 2

end GrammarView
