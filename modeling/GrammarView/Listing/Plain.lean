import GrammarView.Listing.Production

/-!
# Plain listings

A grammar in the plain notation that generators of railroad diagrams read: tokens in quotes,
references and terminals as bare words, and a blank line between two rules.
-/

namespace GrammarView.Plain

/-- The spelling of a lexeme. -/
def spell : Lexeme → String
  | .rule name => name
  | .token text => "'" ++ text ++ "'"
  | .terminal text => text
  | .unknown _ => "[unknown]"
  | lexeme => lexeme.punctuation

/-- The spelling of lexemes, one after the other. -/
def spellAll (lexemes : List Lexeme) : String :=
  String.join (lexemes.map spell)

/-- The printed form of a rule, no reference replaced. -/
def production (grammar : RuleSet) (rule : Rule) : Production :=
  grammar.production (fun _ => none) rule

/-- The written form of a production. -/
def write (production : Production) : String :=
  production.name ++ Production.defines
    ++ (Production.continuation production.name.length).intercalate
      (production.alternatives.map spellAll)

/-- The written form of a grammar. -/
def listing (grammar : RuleSet) : String :=
  "\n\n".intercalate (grammar.rules.map fun rule => write (production grammar rule))

end GrammarView.Plain
