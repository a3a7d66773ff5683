import GrammarView.Grammar.RuleSet

/-!
# Parts of expressions

An expression together with everything inside it, for statements about a body at any depth, and
induction over expressions in which the items of a sequence or a choice are met one by one.
-/

namespace GrammarView

namespace Expr

/-- Induction over expressions. A part that holds several expressions is reached from all of
them. -/
@[elab_as_elim]
theorem inductionOn {motive : Expr → Prop} (expr : Expr)
    (token : ∀ text, motive (.token text)) (terminal : ∀ text, motive (.terminal text))
    (aliased : ∀ text, motive (.aliased text)) (label : ∀ text, motive (.label text))
    (tokens : ∀ texts, motive (.tokens texts))
    (sequence : ∀ items, (∀ item ∈ items, motive item) → motive (.sequence items))
    (choice : ∀ items, (∀ item ∈ items, motive item) → motive (.choice items))
    (list : ∀ item separator, motive separator → motive (.list item separator))
    (quantified : ∀ quantifier item, motive item → motive (.quantified quantifier item))
    (reference : ∀ name, motive (.reference name))
    (foreign : ∀ shown kind, motive (.foreign shown kind)) : motive expr :=
  @Expr.rec motive (fun items => ∀ item ∈ items, motive item) token terminal aliased label tokens
    sequence choice list quantified reference foreign (fun _ absent => nomatch absent)
    (fun _ _ first others => List.forall_mem_cons.mpr ⟨first, others⟩) expr

mutual

/-- An expression and all expressions inside it. -/
def parts : Expr → List Expr
  | .sequence items => .sequence items :: partsOfAll items
  | .choice items => .choice items :: partsOfAll items
  | .list item separator => .list item separator :: separator.parts
  | .quantified quantifier item => .quantified quantifier item :: item.parts
  | expr => [expr]

/-- Several expressions and all expressions inside them. -/
def partsOfAll : List Expr → List Expr
  | [] => []
  | item :: rest => item.parts ++ partsOfAll rest

end

/-- The parts of several expressions are the parts of each. -/
theorem mem_partsOfAll {part : Expr} {items : List Expr} :
    part ∈ partsOfAll items ↔ ∃ item ∈ items, part ∈ item.parts := by
  induction items with
  | nil => simp [partsOfAll]
  | cons item rest inductionHypothesis => simp [partsOfAll, inductionHypothesis]

/-- The parts of one expression are its parts. -/
theorem partsOfAll_singleton (expr : Expr) : partsOfAll [expr] = expr.parts := by
  simp [partsOfAll]

/-- An expression is one of its parts. -/
theorem self_mem_parts (expr : Expr) : expr ∈ expr.parts := by
  cases expr <;> exact .head _

/-- Expressions are among their parts. -/
theorem mem_partsOfAll_of_mem {item : Expr} {items : List Expr} (listed : item ∈ items) :
    item ∈ partsOfAll items :=
  mem_partsOfAll.mpr ⟨item, listed, self_mem_parts item⟩

/-- An expression is one of the parts of it alone. -/
theorem self_mem_partsOfAll (expr : Expr) : expr ∈ partsOfAll [expr] :=
  mem_partsOfAll_of_mem (.head _)

/-- What holds of every part of the expressions. -/
def Throughout (holds : Expr → Prop) (items : List Expr) : Prop :=
  ∀ part ∈ partsOfAll items, holds part

section Throughout

variable {holds : Expr → Prop} {item : Expr} {items rest : List Expr}

/-- What holds throughout the first and the others holds throughout all. -/
theorem throughout_cons :
    Throughout holds (item :: rest) ↔ Throughout holds [item] ∧ Throughout holds rest := by
  simp [Throughout, partsOfAll, or_imp, forall_and]

/-- What holds throughout several expressions holds throughout each. -/
theorem throughout_of_mem (all : Throughout holds items) (member : item ∈ items) :
    Throughout holds [item] := by
  intro part inside
  refine all part (mem_partsOfAll.mpr ⟨item, member, ?_⟩)
  simpa [partsOfAll] using inside

/-- What holds throughout a sequence holds of the sequence and throughout its items. -/
theorem throughout_sequence :
    Throughout holds [.sequence items] ↔ holds (.sequence items) ∧ Throughout holds items := by
  simp [Throughout, partsOfAll, parts]

/-- What holds throughout a choice holds of the choice and throughout its items. -/
theorem throughout_choice :
    Throughout holds [.choice items] ↔ holds (.choice items) ∧ Throughout holds items := by
  simp [Throughout, partsOfAll, parts]

/-- What holds throughout a list holds of the list and throughout its separator. -/
theorem throughout_list {name : String} {separator : Expr} :
    Throughout holds [.list name separator] ↔
      holds (.list name separator) ∧ Throughout holds [separator] := by
  simp [Throughout, partsOfAll, parts]

/-- What holds throughout a part with a quantifier holds of it and throughout the part. -/
theorem throughout_quantified {quantifier : Quantifier} :
    Throughout holds [.quantified quantifier item] ↔
      holds (.quantified quantifier item) ∧ Throughout holds [item] := by
  simp [Throughout, partsOfAll, parts]

end Throughout

/-- What all parts of expressions have, in order. -/
def collect {α : Type} (own : Expr → List α) (exprs : List Expr) : List α :=
  (partsOfAll exprs).flatMap own

section Collect

variable {α : Type} {own : Expr → List α} {found : α} {item : Expr} {items rest : List Expr}

/-- What one expression has is what its parts have. -/
theorem mem_collect_singleton :
    found ∈ collect own [item] ↔ ∃ part ∈ item.parts, found ∈ own part := by
  rw [collect, partsOfAll_singleton, List.mem_flatMap]

/-- What several expressions have is what each of them has. -/
theorem mem_collect : found ∈ collect own items ↔ ∃ item ∈ items, found ∈ collect own [item] := by
  simp only [collect, partsOfAll_singleton, List.mem_flatMap, mem_partsOfAll]
  exact ⟨fun ⟨part, ⟨item, listed, inside⟩, has⟩ => ⟨item, listed, part, inside, has⟩,
    fun ⟨item, listed, part, inside, has⟩ => ⟨part, ⟨item, listed, inside⟩, has⟩⟩

/-- What several expressions have is what the first or one of the others has. -/
theorem mem_collect_cons :
    found ∈ collect own (item :: rest) ↔ found ∈ collect own [item] ∨ found ∈ collect own rest := by
  simp [collect, partsOfAll]

@[simp]
theorem mem_collect_sequence : found ∈ collect own [.sequence items] ↔
    found ∈ own (.sequence items) ∨ found ∈ collect own items := by
  simp [collect, partsOfAll, parts]

@[simp]
theorem mem_collect_choice : found ∈ collect own [.choice items] ↔
    found ∈ own (.choice items) ∨ found ∈ collect own items := by
  simp [collect, partsOfAll, parts]

@[simp]
theorem mem_collect_list {name : String} : found ∈ collect own [.list name item] ↔
    found ∈ own (.list name item) ∨ found ∈ collect own [item] := by
  simp [collect, partsOfAll, parts]

@[simp]
theorem mem_collect_quantified {quantifier : Quantifier} :
    found ∈ collect own [.quantified quantifier item] ↔
      found ∈ own (.quantified quantifier item) ∨ found ∈ collect own [item] := by
  simp [collect, partsOfAll, parts]

end Collect

/-- Whether an expression is anything but a text that only looks like a rule. -/
def NoLabel (expr : Expr) : Prop :=
  ∀ text, expr ≠ .label text

/-- A list without labels is drawn from its item and its separator, which have none. -/
theorem noLabel_list {name : String} {separator : Expr}
    (labelFree : Throughout NoLabel [.list name separator]) :
    Throughout NoLabel [.reference name, separator] := by
  refine throughout_cons.mpr ⟨?_, (throughout_list.mp labelFree).2⟩
  simp [Throughout, partsOfAll, parts, NoLabel]

end Expr

/-- No part of a body of the rules is a text that only looks like a rule. -/
def RuleSet.LabelFree (grammar : RuleSet) : Prop :=
  ∀ rule ∈ grammar.rules, Expr.Throughout Expr.NoLabel [rule.body]

/-- Whether an expression is anything but another name of the rule that it stands in. -/
def Expr.NoAlias (expr : Expr) : Prop :=
  ∀ text, expr ≠ .aliased text

/-- No part of a body of the rules is another name of its rule. -/
def RuleSet.AliasFree (grammar : RuleSet) : Prop :=
  ∀ rule ∈ grammar.rules, Expr.Throughout Expr.NoAlias [rule.body]

/-- The body of a rule that is found is free of labels. -/
theorem RuleSet.LabelFree.body {grammar : RuleSet} (labelFree : grammar.LabelFree) {name : String}
    {rule : Rule} (found : grammar.get? name = some rule) :
    Expr.Throughout Expr.NoLabel [rule.body] :=
  labelFree rule (get?_eq_some found).1

end GrammarView
