import GrammarView.Proofs.Expressions
import Mathlib

/-!
# Languages of rules

What the rules of a grammar mean: every rule stands for a set of words over the symbols of the
grammar. The rules may refer to each other in any way, so their languages are defined together as
the least solution of the equations that the bodies are.

An alias has no meaning of its own. How it is read is a parameter, which may depend on the rule
that the alias stands in.
-/

open scoped Computability

namespace GrammarView

/-- The smallest parts of a word. -/
inductive Symbol where
  | token (text : String)
  | terminal (text : String)
  | label (text : String)
  | foreign (kind : String)

/-- The words of a part with a quantifier. -/
def Quantifier.language (quantifier : Quantifier) (item : Language Symbol) : Language Symbol :=
  match quantifier with
  | .zeroOrOne => 1 + item
  | .zeroOrMore => item∗
  | .oneOrMore => item * item∗

/-- The words of items with a separator between each two. -/
def separated (item separator : Language Symbol) : Language Symbol :=
  item * (separator * item)∗

namespace Expr

variable (rules : String → Language Symbol) (readAlias : String → Symbol)

mutual

/-- The words of an expression, given the words of the rules that it may refer to. -/
def language : Expr → Language Symbol
  | .token text => {[.token text]}
  | .terminal text => {[.terminal text]}
  | .aliased text => {[readAlias text]}
  | .label text => {[.label text]}
  | .tokens texts => (texts.map fun text => ({[.token text]} : Language Symbol)).sum
  | .sequence items => (languages items).prod
  | .choice items => (languages items).sum
  | .list item separator => separated (rules item) separator.language
  | .quantified quantifier item => quantifier.language item.language
  | .reference name => rules name
  | .foreign _ kind => {[.foreign kind]}

/-- The words of each of several expressions. -/
def languages : List Expr → List (Language Symbol)
  | [] => []
  | item :: rest => item.language :: languages rest

end

/-- The languages of several expressions are those of each. -/
theorem languages_eq_map (items : List Expr) :
    languages rules readAlias items = items.map (language rules readAlias) := by
  induction items with
  | nil => rfl
  | cons item rest inductionHypothesis => simp [languages, inductionHypothesis]

end Expr

/-- More words of a part give more words of its repetition. -/
theorem Quantifier.language_mono (quantifier : Quantifier) {smaller greater : Language Symbol}
    (below : smaller ≤ greater) : quantifier.language smaller ≤ quantifier.language greater := by
  cases quantifier with
  | zeroOrOne => exact add_le_add_right below 1
  | zeroOrMore => exact kstar_mono below
  | oneOrMore => exact mul_le_mul' below (kstar_mono below)

/-- More words of the items and of the separator give more words of a list. -/
theorem separated_mono {item item' separator separator' : Language Symbol}
    (items : item ≤ item') (separators : separator ≤ separator') :
    separated item separator ≤ separated item' separator' :=
  mul_le_mul' items (kstar_mono (mul_le_mul' separators items))

/-- More words of the rules give more words of an expression. -/
theorem Expr.language_mono {smaller greater : String → Language Symbol} (below : smaller ≤ greater)
    (readAlias : String → Symbol) (expr : Expr) :
    expr.language smaller readAlias ≤ expr.language greater readAlias := by
  induction expr using Expr.inductionOn with
  | sequence items inductionHypothesis =>
    simp only [language, languages_eq_map]
    exact List.prod_le_prod' inductionHypothesis
  | choice items inductionHypothesis =>
    simp only [language, languages_eq_map]
    exact List.sum_le_sum inductionHypothesis
  | list item separator inductionHypothesis =>
    exact separated_mono (below item) inductionHypothesis
  | quantified quantifier item inductionHypothesis =>
    exact quantifier.language_mono inductionHypothesis
  | reference name => exact below name
  | _ => exact le_rfl

namespace RuleSet

variable (grammar : RuleSet) (readAlias : String → String → Symbol)

/-- The words of the bodies of the rules, given words of the rules. A name of no rule has none. -/
def bodyLanguages (rules : String → Language Symbol) (name : String) : Language Symbol :=
  match grammar.get? name with
  | some rule => rule.body.language rules (readAlias name)
  | none => 0

/-- The bodies as a monotone map on the languages of the rules. -/
def equations : (String → Language Symbol) →o (String → Language Symbol) where
  toFun := grammar.bodyLanguages readAlias
  monotone' smaller greater below name := by
    unfold bodyLanguages
    split
    · exact Expr.language_mono below (readAlias name) _
    · exact le_rfl

/-- The words of every rule: the least languages that solve the equations of all rules. -/
noncomputable def language : String → Language Symbol :=
  (grammar.equations readAlias).lfp

variable {grammar readAlias}

/-- The languages of the rules solve the equations. -/
theorem bodyLanguages_language :
    grammar.bodyLanguages readAlias (grammar.language readAlias) = grammar.language readAlias :=
  (grammar.equations readAlias).map_lfp

variable (readAlias) in
/-- A rule has exactly the words of its body. -/
theorem language_of_get? {name : String} {rule : Rule} (found : grammar.get? name = some rule) :
    grammar.language readAlias name
      = rule.body.language (grammar.language readAlias) (readAlias name) :=
  calc grammar.language readAlias name
    _ = grammar.bodyLanguages readAlias (grammar.language readAlias) name := by
        rw [bodyLanguages_language]
    _ = rule.body.language (grammar.language readAlias) (readAlias name) := by
        simp only [bodyLanguages, found]

/-- The languages of the rules lie below all languages that the bodies do not lead out of. -/
theorem language_le {rules : String → Language Symbol}
    (closed : ∀ name rule, grammar.get? name = some rule →
      rule.body.language rules (readAlias name) ≤ rules name) :
    grammar.language readAlias ≤ rules := by
  refine (grammar.equations readAlias).lfp_le fun name => ?_
  change grammar.bodyLanguages readAlias rules name ≤ rules name
  unfold bodyLanguages
  split
  next rule found => exact closed name rule found
  next => exact bot_le

end RuleSet

end GrammarView
