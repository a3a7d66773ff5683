import GrammarView.Listing.Html
import GrammarView.Proofs.Lexemes

/-!
# What a listing shows in the place of references

The relation between expressions and what a listing shows for them, beside the inlining that
computes it. The relation keeps the names of the rules that are being replaced; inlining keeps those
that may still be replaced instead, which bounds it. Over the rules of a grammar whose names differ
the two lists hold each other's complement, and then a listing shows exactly what the relation says.
-/

namespace GrammarView

/-- Whether an expression refers to no rule and holds no other expression. -/
def Expr.isLeaf : Expr → Bool
  | .reference _ | .sequence _ | .choice _ | .list _ _ | .quantified _ _ => false
  | _ => true

/-- An expression that holds no other is its only part. -/
theorem Expr.parts_of_isLeaf {expr : Expr} (leaf : expr.isLeaf = true) : expr.parts = [expr] := by
  cases expr with
  | reference | sequence | choice | list | quantified => contradiction
  | _ => rfl

/-- Expressions that stand one after the other with what a listing shows for them, inside the rules
that are being replaced. -/
inductive Shows (grammar : RuleSet) (collapsed : Bool) :
    List String → List Expr → List Expr → Prop where
  | nil {active} : Shows grammar collapsed active [] []
  | cons {active item shown items others}
      (first : Shows grammar collapsed active [item] [shown])
      (remaining : Shows grammar collapsed active items others) :
      Shows grammar collapsed active (item :: items) (shown :: others)
  /-- A reference that collapses is replaced by the body of its rule. -/
  | body {active name rule shown} (collapsing : collapsed = true)
      (collapses : grammar.collapses name = true) (found : grammar.get? name = some rule)
      (idle : name ∉ active) (body : Shows grammar collapsed (name :: active) [rule.body] [shown]) :
      Shows grammar collapsed active [.reference name] [shown]
  /-- Any other reference is kept, and so is one that is being replaced. -/
  | kept {active name}
      (stays : collapsed = true → grammar.collapses name = true → name ∈ active) :
      Shows grammar collapsed active [.reference name] [.reference name]
  | sequence {active items shown} (parts : Shows grammar collapsed active items shown) :
      Shows grammar collapsed active [.sequence items] [.sequence shown]
  | choice {active items shown} (parts : Shows grammar collapsed active items shown) :
      Shows grammar collapsed active [.choice items] [.choice shown]
  | list {active item separator shown}
      (part : Shows grammar collapsed active [separator] [shown]) :
      Shows grammar collapsed active [.list item separator] [.list item shown]
  | quantified {active quantifier item shown}
      (part : Shows grammar collapsed active [item] [shown]) :
      Shows grammar collapsed active [.quantified quantifier item] [.quantified quantifier shown]
  | leaf {active expr} (leaf : expr.isLeaf = true) : Shows grammar collapsed active [expr] [expr]

namespace RuleSet

variable {grammar : RuleSet} {collapsed : Bool}

/-- The body that a listing shows in the place of a reference, if any. -/
def shownBody? (grammar : RuleSet) (collapsed : Bool) (name : String) : Option Expr :=
  if collapsed then grammar.collapsedBody? name else none

/-- A listing shows the body of a rule that collapses. -/
theorem shownBody?_eq_some {name : String} {body : Expr} :
    grammar.shownBody? collapsed name = some body ↔
      collapsed = true ∧ grammar.collapses name = true ∧
        ∃ rule, grammar.get? name = some rule ∧ rule.body = body := by
  cases collapsed <;> simp [shownBody?, collapsedBody?]

/-- A listing shows no body of a rule that does not collapse. -/
theorem shownBody?_eq_none {name : String} :
    grammar.shownBody? collapsed name = none ↔
      ¬ (collapsed = true ∧ grammar.collapses name = true) := by
  cases collapsed with
  | false => simp [shownBody?]
  | true =>
    cases found : grammar.get? name <;> simp [shownBody?, collapsedBody?, collapses, found]

/-- The names that may still be replaced are those that are not being replaced. -/
structure Spare (grammar : RuleSet) (active replaceable : List String) : Prop where
  distinct : replaceable.Nodup
  idle : ∀ name ∈ grammar.names, name ∈ replaceable ↔ name ∉ active

/-- While a rule is being replaced it may not be replaced again. -/
theorem Spare.erase {active replaceable : List String} (spare : grammar.Spare active replaceable)
    (name : String) : grammar.Spare (name :: active) (replaceable.erase name) where
  distinct := spare.distinct.erase name
  idle := by
    intro other known
    rw [spare.distinct.mem_erase_iff, spare.idle other known, List.mem_cons, not_or]

/-- In the body of a rule all names but its own may be replaced. -/
theorem spare_replaceable (distinct : grammar.names.Nodup) (rule : Rule) :
    grammar.Spare [rule.name] (grammar.replaceable rule) where
  distinct := distinct.erase rule.name
  idle := by
    intro other known
    rw [replaceable, distinct.mem_erase_iff, List.mem_singleton]
    exact and_iff_left known

end RuleSet

variable {grammar : RuleSet} {collapsed : Bool} {active replaceable : List String}

/-- A listing shows what inlining gives. -/
theorem shows_inlined (spare : grammar.Spare active replaceable) (expr : Expr) :
    Shows grammar collapsed active [expr]
      [expr.inlined (grammar.shownBody? collapsed) replaceable] := by
  revert active
  apply Expr.inlined.induct (grammar.shownBody? collapsed)
    (fun replaceable expr => ∀ {active}, grammar.Spare active replaceable →
      Shows grammar collapsed active [expr]
        [expr.inlined (grammar.shownBody? collapsed) replaceable])
    (fun replaceable items => ∀ {active}, grammar.Spare active replaceable →
      Shows grammar collapsed active items
        (Expr.inlinedAll (grammar.shownBody? collapsed) replaceable items))
  case case1 =>
    intro replaceable name body found member inductionHypothesis active spare
    obtain ⟨collapsing, collapses, rule, ruleFound, rfl⟩ := RuleSet.shownBody?_eq_some.mp found
    simp only [Expr.inlined, found, member, if_true]
    have known := RuleSet.mem_names_of_get? ruleFound
    exact .body collapsing collapses ruleFound ((spare.idle name known).mp member)
      (inductionHypothesis (spare.erase name))
  case case2 =>
    intro replaceable name body found absent active spare
    obtain ⟨-, -, rule, ruleFound, rfl⟩ := RuleSet.shownBody?_eq_some.mp found
    simp only [Expr.inlined, found, absent, if_false]
    have known := RuleSet.mem_names_of_get? ruleFound
    exact .kept fun _ _ => not_not.mp (mt (spare.idle name known).mpr absent)
  case case3 =>
    intro replaceable name none active spare
    simp only [Expr.inlined, none]
    exact .kept fun collapsing collapses =>
      absurd ⟨collapsing, collapses⟩ (RuleSet.shownBody?_eq_none.mp none)
  case case4 =>
    intro replaceable items inductionHypothesis active spare
    simp only [Expr.inlined]
    exact .sequence (inductionHypothesis spare)
  case case5 =>
    intro replaceable items inductionHypothesis active spare
    simp only [Expr.inlined]
    exact .choice (inductionHypothesis spare)
  case case6 =>
    intro replaceable item separator inductionHypothesis active spare
    simp only [Expr.inlined]
    exact .list (inductionHypothesis spare)
  case case7 =>
    intro replaceable quantifier item inductionHypothesis active spare
    simp only [Expr.inlined]
    exact .quantified (inductionHypothesis spare)
  case case8 =>
    intro replaceable expr notReference notSequence notChoice notList notQuantified active spare
    cases expr with
    | reference name => exact (notReference name rfl).elim
    | sequence items => exact (notSequence items rfl).elim
    | choice items => exact (notChoice items rfl).elim
    | list item separator => exact (notList item separator rfl).elim
    | quantified quantifier item => exact (notQuantified quantifier item rfl).elim
    | _ =>
      simp only [Expr.inlined]
      exact .leaf rfl
  case case9 =>
    intro replaceable active spare
    simp only [Expr.inlinedAll]
    exact .nil
  case case10 =>
    intro replaceable item rest first others active spare
    simp only [Expr.inlinedAll]
    exact .cons (first spare) (others spare)

/-- In the body of a rule a listing shows what inlining gives when all names but its own may be
replaced. -/
theorem shows_in_rule (distinct : grammar.names.Nodup) (collapsed : Bool) (rule : Rule)
    (expr : Expr) :
    Shows grammar collapsed [rule.name] [expr]
      [expr.inlined (grammar.shownBody? collapsed) (grammar.replaceable rule)] :=
  shows_inlined (RuleSet.spare_replaceable distinct rule) expr

/-- Several expressions are inlined one by one. -/
theorem Expr.inlinedAll_eq_map (body? : String → Option Expr) (replaceable : List String)
    (items : List Expr) :
    Expr.inlinedAll body? replaceable items = items.map (Expr.inlined body? replaceable) := by
  induction items with
  | nil => rw [Expr.inlinedAll, List.map_nil]
  | cons item rest inductionHypothesis =>
    rw [Expr.inlinedAll, List.map_cons, inductionHypothesis]

/-- A listing shows nothing else than what inlining gives. -/
theorem Shows.eq_inlined {exprs shown : List Expr}
    (listed : Shows grammar collapsed active exprs shown)
    (spare : grammar.Spare active replaceable) :
    shown = exprs.map (Expr.inlined (grammar.shownBody? collapsed) replaceable) := by
  induction listed generalizing replaceable with
  | nil => rfl
  | cons first remaining firstHypothesis remainingHypothesis =>
    have firstShown := List.singleton_inj.mp (firstHypothesis spare)
    rw [List.map_cons, firstShown, remainingHypothesis spare]
  | @body active name rule shown collapsing collapses found idle body inductionHypothesis =>
    have member := (spare.idle name (RuleSet.mem_names_of_get? found)).mpr idle
    have given := RuleSet.shownBody?_eq_some.mpr ⟨collapsing, collapses, rule, found, rfl⟩
    rw [List.map_singleton, Expr.inlined, given]
    simpa [member] using inductionHypothesis (spare.erase name)
  | @kept active name stays =>
    rw [List.map_singleton, Expr.inlined]
    cases given : grammar.shownBody? collapsed name with
    | none => rfl
    | some body =>
      obtain ⟨collapsing, collapses, rule, found, -⟩ := RuleSet.shownBody?_eq_some.mp given
      have absent : name ∉ replaceable := fun member =>
        (spare.idle name (RuleSet.mem_names_of_get? found)).mp member (stays collapsing collapses)
      simp [absent]
  | sequence parts inductionHypothesis =>
    rw [List.map_singleton, Expr.inlined, Expr.inlinedAll_eq_map, inductionHypothesis spare]
  | choice parts inductionHypothesis =>
    rw [List.map_singleton, Expr.inlined, Expr.inlinedAll_eq_map, inductionHypothesis spare]
  | list part inductionHypothesis =>
    have partShown := List.singleton_inj.mp (inductionHypothesis spare)
    rw [List.map_singleton, Expr.inlined, partShown]
  | quantified part inductionHypothesis =>
    have partShown := List.singleton_inj.mp (inductionHypothesis spare)
    rw [List.map_singleton, Expr.inlined, partShown]
  | @leaf active expr leaf =>
    cases expr with
    | reference | sequence | choice | list | quantified => simp [Expr.isLeaf] at leaf
    | _ => rw [List.map_singleton, Expr.inlined] <;> simp

/-- The alternatives of a rule that is no list are those of its inlined body. -/
theorem RuleSet.intercalate_alternatives (grammar : RuleSet) (body? : String → Option Expr) {rule : Rule}
    (notList : ∀ item separator, rule.body ≠ .list item separator) :
    [Lexeme.bar].intercalate (grammar.production body? rule).alternatives
      = (rule.body.inlined body? (grammar.replaceable rule)).lexemes true false := by
  cases form : rule.body with
  | choice items =>
    rw [production, form, Expr.inlined, Expr.lexemes, Expr.lexemesOfAll_eq_map,
      Expr.inlinedAll_eq_map, List.map_map]
    rfl
  | list item separator => exact (notList item separator form).elim
  | _ => rw [production, form, List.intercalate_singleton]

/-- What can be printed throughout the rules is shown as something that can be printed. -/
theorem Shows.printable {exprs shown : List Expr}
    (listed : Shows grammar collapsed active exprs shown)
    (rules : ∀ rule ∈ grammar.rules, Expr.Throughout Expr.Printable [rule.body])
    (printable : Expr.Throughout Expr.Printable exprs) :
    Expr.Throughout Expr.Printable shown := by
  induction listed with
  | nil => exact printable
  | cons first remaining firstHypothesis remainingHypothesis =>
    obtain ⟨firstPrintable, othersPrintable⟩ := Expr.throughout_cons.mp printable
    exact Expr.throughout_cons.mpr
      ⟨firstHypothesis firstPrintable, remainingHypothesis othersPrintable⟩
  | body collapsing collapses found idle body inductionHypothesis =>
    exact inductionHypothesis (rules _ (RuleSet.get?_eq_some found).1)
  | kept | leaf => exact printable
  | sequence parts inductionHypothesis =>
    obtain ⟨-, partsPrintable⟩ := Expr.throughout_sequence.mp printable
    exact Expr.throughout_sequence.mpr ⟨trivial, inductionHypothesis partsPrintable⟩
  | choice parts inductionHypothesis =>
    obtain ⟨offered, partsPrintable⟩ := Expr.throughout_choice.mp printable
    refine Expr.throughout_choice.mpr ⟨?_, inductionHypothesis partsPrintable⟩
    cases parts with
    | nil => exact offered
    | _ => exact List.cons_ne_nil _ _
  | list part inductionHypothesis => exact (printable _ (.head _)).elim
  | quantified part inductionHypothesis =>
    obtain ⟨-, partPrintable⟩ := Expr.throughout_quantified.mp printable
    exact Expr.throughout_quantified.mpr ⟨trivial, inductionHypothesis partPrintable⟩

end GrammarView
