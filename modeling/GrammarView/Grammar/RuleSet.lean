import GrammarView.Grammar.Expr

/-!
# Rule sets

The checked form of a grammar: its rules in order, each with the names it refers to. These references
are the edges of a graph. Every rule also keeps the names of the rules that refer to it, so that it can
be told how a rule is used without looking at all the others.
-/

namespace GrammarView

/-- A rule with the way it is shown. -/
structure Rule where
  name : String
  body : Expr
  /-- Whether the rule is shown in the place of its references; none leaves it to its usage. -/
  inline : Option Bool
  /-- Whether the rule may have a diagram of its own. -/
  railroad : Bool
  /-- The margin at the left of its definition, if one is given. -/
  left : Option Float
  /-- The margin at the right of its definition, if one is given. -/
  right : Option Float
  /-- The names that the rule refers to, each once, in the order in which they were met. -/
  references : List String
  /-- The names of the rules that refer to the rule, filled in when all rules have been read. -/
  referrers : List String

/-- Whether a rule other than itself refers to a rule. -/
def Rule.isUsedElsewhere (rule : Rule) : Bool :=
  rule.referrers.any (· != rule.name)

/-- The rules of a grammar, in order. -/
structure RuleSet where
  rules : List Rule

namespace RuleSet

/-- The names of the rules, in order. -/
def names (grammar : RuleSet) : List String :=
  grammar.rules.map Rule.name

/-- The rule of a name. -/
def get? (grammar : RuleSet) (name : String) : Option Rule :=
  grammar.rules.find? (·.name == name)

/-- The rules that refer to a name, in order. -/
def referrers (grammar : RuleSet) (name : String) : List String :=
  (grammar.rules.filter (·.references.contains name)).map Rule.name

/-- The names that a rule refers to. A name of no rule refers to none. -/
def references (grammar : RuleSet) (name : String) : List String :=
  match grammar.get? name with
  | some rule => rule.references
  | none => []

/-- The rules that no rule refers to, themselves included. -/
def unused (grammar : RuleSet) : List String :=
  grammar.names.filter fun name => (grammar.referrers name).isEmpty

/-- Every reference with the rule that makes it, in order. -/
def edges (grammar : RuleSet) : List (String × String) :=
  grammar.rules.flatMap fun rule => rule.references.map fun target => (rule.name, target)

/-- The rule set with the referrers filled in at each of its rules. -/
def withReferrers (grammar : RuleSet) : RuleSet :=
  ⟨grammar.rules.map fun rule => { rule with referrers := grammar.referrers rule.name }⟩

section Referrers

variable {grammar : RuleSet}

/-- Filling in referrers leaves the graph. -/
theorem referrers_withReferrers (name : String) :
    grammar.withReferrers.referrers name = grammar.referrers name := by
  simp only [withReferrers, referrers, List.filter_map, List.map_map]
  rfl

end Referrers

/-- The rule set with another body in the place of a rule's. What is known of the references stays
as it was. -/
def withBody (grammar : RuleSet) (name : String) (body : Expr) : RuleSet :=
  ⟨grammar.rules.map fun rule => if rule.name = name then { rule with body } else rule⟩

/-- A rule found under a name has that name and is one of the rules. -/
theorem get?_eq_some {grammar : RuleSet} {name : String} {rule : Rule}
    (found : grammar.get? name = some rule) : rule ∈ grammar.rules ∧ rule.name = name :=
  ⟨List.mem_of_find?_eq_some found, by simpa using List.find?_some found⟩

/-- A name under which a rule is found is one of the names. -/
theorem mem_names_of_get? {grammar : RuleSet} {name : String} {rule : Rule}
    (found : grammar.get? name = some rule) : name ∈ grammar.names := by
  obtain ⟨member, rfl⟩ := get?_eq_some found
  exact List.mem_map_of_mem member

end RuleSet

end GrammarView
