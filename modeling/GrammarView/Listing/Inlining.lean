import GrammarView.Grammar.RuleSet

/-!
# Inlining

Replaces references by the bodies of the rules they refer to, recursively. While the body of a
rule is being inserted, references to that rule stay references, so a recursive rule is inserted
once and not for ever.
-/

namespace GrammarView

/-- Whether a listing shows a rule in the place of its references: it must be used by another
rule, and either be marked for it or be used by one rule only. -/
def RuleSet.collapses (grammar : RuleSet) (name : String) : Bool :=
  match grammar.get? name with
  | none => false
  | some rule =>
    rule.isUsedElsewhere &&
      match rule.inline with
      | some inline => inline
      | none => rule.referrers.length == 1

/-- The body that a collapsed listing shows in the place of a reference, if any. -/
def RuleSet.collapsedBody? (grammar : RuleSet) (name : String) : Option Expr :=
  if grammar.collapses name then (grammar.get? name).map Rule.body else none

namespace Expr

mutual

/-- The expression with references replaced by their bodies, as far as they have one and are
among the names that may be replaced. -/
def inlined (body? : String → Option Expr) (replaceable : List String) : Expr → Expr
  | .reference name =>
    match body? name with
    | some body =>
      if name ∈ replaceable then inlined body? (replaceable.erase name) body
      else .reference name
    | none => .reference name
  | .sequence items => .sequence (inlinedAll body? replaceable items)
  | .choice items => .choice (inlinedAll body? replaceable items)
  | .list item separator => .list item (inlined body? replaceable separator)
  | .quantified quantifier item => .quantified quantifier (inlined body? replaceable item)
  | expr => expr
termination_by expr => (replaceable.length, sizeOf expr)
decreasing_by
  · rename_i member
    have smaller := List.length_erase_of_mem member
    have positive := List.length_pos_of_mem member
    exact Prod.Lex.left _ _ (by omega)
  all_goals
    apply Prod.Lex.right
    simp only [Expr.sequence.sizeOf_spec, Expr.choice.sizeOf_spec, Expr.list.sizeOf_spec,
      Expr.quantified.sizeOf_spec]
    omega

/-- The expressions with references replaced. -/
def inlinedAll (body? : String → Option Expr) (replaceable : List String) :
    List Expr → List Expr
  | [] => []
  | item :: rest => inlined body? replaceable item :: inlinedAll body? replaceable rest
termination_by items => (replaceable.length, sizeOf items)
decreasing_by
  all_goals exact Prod.Lex.right _ (by simp <;> omega)

end

end Expr

end GrammarView
