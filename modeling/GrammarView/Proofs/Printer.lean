import GrammarView.Listing.Plain
import GrammarView.Proofs.Descriptions
import GrammarView.Proofs.Replacement
import GrammarView.Proofs.Stepwise
import Mathlib

/-!
# Printers

Printing as it goes on step by step, in a printer that is used for one rule after another. A printer
remembers the rules whose bodies it is in: it adds a name before it begins with a body, and takes
the last name away when it is done. Nothing bounds how far it goes into bodies, and nothing keeps it
from looking for a rule that does not exist. That it ends all the same, that it goes into no body
that it is in, and that it is left as it was, is what is proved here; what it prints are the
productions of the rules.
-/

namespace GrammarView

/-- A body that a printer went into: the name of its rule, and the rules whose bodies the printer
was in. -/
structure Visit where
  name : String
  around : List String

/-- A printer: the rules whose bodies it is in, and the bodies that it has gone into so far, the
last ones first. -/
structure Printer where
  active : List String
  visits : List Visit

/-- What is done with a printer. -/
abbrev Printing (β : Type) := Stepwise Printer UnknownRule β

namespace Printer

/-- Goes into the body of a rule. -/
def enter (name : String) : Printing PUnit :=
  modify fun printer => ⟨name :: printer.active, ⟨name, printer.active⟩ :: printer.visits⟩

/-- Comes out of the body that was entered last. -/
def leave : Printing PUnit :=
  modify fun printer => { printer with active := printer.active.tail }

/-- The body that is printed in the place of a reference, if any. -/
def body? (grammar : RuleSet) (collapsed : Bool) (name : String) : Printing (Option Expr) := do
  let printer ← get
  if name ∈ printer.active then return none
  else if collapsed && grammar.collapses name then
    match grammar.get? name with
    | some rule => return some rule.body
    | none => throw ⟨name⟩
  else return none

/-- What is printed in the place of an expression. -/
def operand (grammar : RuleSet) (collapsed : Bool) (expr : Expr) : Printing Expr :=
  match expr with
  | .reference name => do
    let body ← body? grammar collapsed name
    return body.getD expr
  | _ => pure expr

end Printer

namespace RuleSet

open Printer (enter leave body? operand)

mutual

/-- Prints an expression. `quantified` says that a quantifier follows, `whole` that the expression
is a whole body. -/
def print (grammar : RuleSet) (collapsed whole quantified : Bool) (expr : Expr) :
    Printing (List Lexeme) :=
  match expr with
  | .reference name => do
    let body ← body? grammar collapsed name
    match body with
    | none => return [.rule name]
    | some body =>
      enter name
      let lexemes ← grammar |>.print collapsed false quantified body
      leave
      return lexemes
  | .sequence items => do
    let parts ← grammar |>.printAll collapsed items
    return Lexeme.groupIf quantified ([Lexeme.gap].intercalate parts)
  | .choice items => do
    let parts ← grammar |>.printAll collapsed items
    return Lexeme.groupIf (!whole) ([Lexeme.bar].intercalate parts)
  | .list item separator => do
    let between ← grammar |>.print collapsed false false separator
    return Lexeme.groupIf quantified
      (Lexeme.group (.rule item :: .gap :: between) ++ [.mark .zeroOrMore, .gap, .rule item])
  | .quantified quantifier item => do
    let lexemes ← grammar |>.print collapsed false true item
    let printed ← operand grammar collapsed item
    return Lexeme.groupIf printed.isQuantified lexemes ++ [.mark quantifier]
  | expr => pure (expr.lexemes whole quantified)
partial_fixpoint

/-- Prints expressions from the first to the last. -/
def printAll (grammar : RuleSet) (collapsed : Bool) (items : List Expr) :
    Printing (List (List Lexeme)) :=
  match items with
  | [] => pure []
  | item :: rest => do
    let lexemes ← grammar |>.print collapsed false false item
    let others ← grammar |>.printAll collapsed rest
    return lexemes :: others
partial_fixpoint

end

end RuleSet

namespace Printer

open RuleSet (print printAll)

/-- Prints the alternatives of a rule whose body the printer is in. A rule that is a list is printed
as the recursion it abbreviates, with its item twice. -/
def lines (grammar : RuleSet) (collapsed : Bool) (rule : Rule) : Printing (List (List Lexeme)) :=
  match rule.body with
  | .choice items => printAll grammar collapsed items
  | .list item separator => do
    let first ← print grammar collapsed false false (.reference item)
    let between ← print grammar collapsed false false separator
    let again ← print grammar collapsed false false (.reference item)
    return [first, .rule rule.name :: .gap :: between ++ .gap :: again]
  | body => do
    let line ← print grammar collapsed true false body
    return [line]

/-- Prints a rule. -/
def production (grammar : RuleSet) (collapsed : Bool) (rule : Rule) : Printing Production := do
  enter rule.name
  let alternatives ← lines grammar collapsed rule
  leave
  return ⟨rule.name, alternatives⟩

/-- Prints a rule as hypertext. -/
def hypertext (grammar : RuleSet) (collapsed : Bool) (rule : Rule) : Printing String := do
  let production ← production grammar collapsed rule
  return Markup.writeAll (Html.trees production)

/-- Prints a rule in the plain notation, which replaces no reference. -/
def text (grammar : RuleSet) (rule : Rule) : Printing String := do
  let production ← production grammar false rule
  return Plain.write production

/-- Whether work of a printer in the given bodies ends with a result and in the same bodies, and
goes into no body while it is in it. -/
def Prints {β : Type} (work : Printing β) (active : List String) (result : β) : Prop :=
  ∀ visits, ∃ further : List Visit, (∀ visit ∈ further, visit.name ∉ visit.around) ∧
    work.Gives ⟨active, visits⟩ result ⟨active, further ++ visits⟩

section Steps

variable {β γ : Type} {active : List String}

/-- Nothing is printed without a step. -/
theorem prints_pure (result : β) : Prints (pure result) active result :=
  fun _ => ⟨[], nofun, Stepwise.gives_pure.mpr ⟨rfl, rfl⟩⟩

/-- Printing goes on in the same bodies. -/
theorem Prints.bind {first : Printing β} {next : β → Printing γ} {result : β} {final : γ}
    (begins : Prints first active result) (goesOn : Prints (next result) active final) :
    Prints (first >>= next) active final := by
  intro visits
  obtain ⟨earlier, earlierFresh, firstGives⟩ := begins visits
  obtain ⟨later, laterFresh, nextGives⟩ := goesOn (earlier ++ visits)
  refine ⟨later ++ earlier, List.forall_mem_append.mpr ⟨laterFresh, earlierFresh⟩, ?_⟩
  rw [List.append_assoc]
  exact firstGives.bind nextGives

/-- Something is made of what is printed. -/
theorem Prints.map {work : Printing β} {result : β} (prints : Prints work active result)
    (f : β → γ) : Prints (work >>= fun result => pure (f result)) active (f result) :=
  prints.bind (prints_pure (f result))

/-- Several things are printed one after the other. -/
theorem Prints.series {ι : Type} {items : List ι} {work : ι → Printing β} {result : ι → β}
    (prints : ∀ item ∈ items, Prints (work item) active (result item)) :
    Prints (items.mapM work) active (items.map result) := by
  induction items with
  | nil => exact prints_pure []
  | cons item rest inductionHypothesis =>
    obtain ⟨first, others⟩ := List.forall_mem_cons.mp prints
    rw [List.mapM_cons]
    exact first.bind ((inductionHypothesis others).map _)

/-- What is printed between going into a body and coming out of it again is printed in the bodies
around it, if the body is none of them. -/
theorem Prints.inside {name : String} {work : Printing β} {result : β}
    (prints : Prints work (name :: active) result) (outside : name ∉ active) (f : β → γ) :
    Prints (do enter name; let result ← work; leave; return f result) active (f result) := by
  intro visits
  obtain ⟨further, fresh, gives⟩ := prints (⟨name, active⟩ :: visits)
  have enters : (enter name).Gives ⟨active, visits⟩ ⟨⟩ ⟨name :: active, ⟨name, active⟩ :: visits⟩ :=
    rfl
  have leaves : leave.Gives ⟨name :: active, further ++ ⟨name, active⟩ :: visits⟩ ⟨⟩
      ⟨active, further ++ ⟨name, active⟩ :: visits⟩ := rfl
  refine ⟨further ++ [⟨name, active⟩], ?_, ?_⟩
  · exact List.forall_mem_append.mpr ⟨fresh, List.forall_mem_singleton.mpr outside⟩
  · rw [List.append_assoc]
    exact enters.bind (gives.bind (leaves.bind (Stepwise.gives_pure.mpr ⟨rfl, rfl⟩)))

/-- A printer finds the body that a listing shows in the place of a reference, unless it is in that
body. -/
theorem prints_body? (grammar : RuleSet) (collapsed : Bool) (name : String) :
    Prints (body? grammar collapsed name) active
      (if name ∈ active then none else grammar.shownBody? collapsed name) := by
  intro visits
  refine ⟨[], nofun, ?_⟩
  refine Stepwise.gives_bind.mpr ⟨⟨active, visits⟩, _, rfl, ?_⟩
  by_cases inside : name ∈ active
  · simp only [inside, if_true]
    exact Stepwise.gives_pure.mpr ⟨rfl, rfl⟩
  · simp only [inside, if_false, RuleSet.shownBody?, RuleSet.collapsedBody?]
    cases collapsed with
    | false => exact Stepwise.gives_pure.mpr ⟨rfl, rfl⟩
    | true =>
      cases collapses : grammar.collapses name with
      | false => exact Stepwise.gives_pure.mpr ⟨rfl, rfl⟩
      | true =>
        -- A rule collapses only if it exists.
        cases found : grammar.get? name with
        | none => simp [RuleSet.collapses, found] at collapses
        | some rule => exact Stepwise.gives_pure.mpr ⟨rfl, rfl⟩

/-- Expressions are printed one after the other. -/
theorem prints_printAll {grammar : RuleSet} {collapsed : Bool} {items : List Expr}
    {lexemes : Expr → List Lexeme}
    (prints : ∀ item ∈ items, Prints (print grammar collapsed false false item) active
      (lexemes item)) :
    Prints (printAll grammar collapsed items) active (items.map lexemes) := by
  induction items with
  | nil =>
    rw [printAll]
    exact prints_pure []
  | cons item rest inductionHypothesis =>
    obtain ⟨first, others⟩ := List.forall_mem_cons.mp prints
    rw [printAll]
    exact first.bind ((inductionHypothesis others).map _)

end Steps

end Printer

/-- Whether an expression is more than the name of a rule. -/
def Expr.NoReference (expr : Expr) : Prop :=
  ∀ name, expr ≠ .reference name

/-- Only a part inside a body is a name. -/
theorem Validation.Reads.noReference {scope : Validation.Scope} {values : List Json}
    {exprs : List Expr} {references : List String}
    (reads : Validation.Reads scope true values exprs references) :
    ∀ expr ∈ exprs, expr.NoReference := by
  cases reads with
  | @leaf _ _ _ leaf => cases leaf <;> simp [LeafTag.expr, Expr.NoReference]
  | tokens | sequence | choice | quantified => simp [Expr.NoReference]
  | list =>
    simp only [Validation.listReading, if_true]
    split <;> simp [Expr.NoReference, Validation.delistRule, Validation.keepList]

/-- The body of a rule is more than the name of another rule. -/
theorem RuleSet.noReference_of_validate {description : Entries Json} {delist : Bool}
    {grammar : RuleSet} (valid : validate description delist = .ok grammar) {rule : Rule}
    (member : rule ∈ grammar.rules) : rule.body.NoReference := by
  obtain ⟨⟨name, value⟩, -, reads⟩ :=
    Validation.exists_left_of_mem (reads_of_validate valid) member
  cases reads with
  | rule body => exact body.noReference _ (.head _)

/-- What is more than a name has a quantifier exactly when it has one with its references
replaced. -/
theorem Expr.NoReference.isQuantified_inlined {expr : Expr} (noReference : expr.NoReference)
    (body? : String → Option Expr) (replaceable : List String) :
    (expr.inlined body? replaceable).isQuantified = expr.isQuantified := by
  cases expr with
  | reference name => exact absurd rfl (noReference name)
  | _ => simp [Expr.inlined, Expr.isQuantified]

namespace Printer

open RuleSet (print printAll)

variable {grammar : RuleSet} {active replaceable : List String}

/-- A printer finds a body for the names that may still be replaced. -/
theorem prints_body?_of_spare (collapsed : Bool) (spare : grammar.Spare active replaceable)
    (name : String) :
    Prints (body? grammar collapsed name) active
      (if name ∈ replaceable then grammar.shownBody? collapsed name else none) := by
  have same : (if name ∈ replaceable then grammar.shownBody? collapsed name else none)
      = if name ∈ active then none else grammar.shownBody? collapsed name := by
    cases shown : grammar.shownBody? collapsed name with
    | none => simp
    | some body =>
      obtain ⟨-, -, rule, found, -⟩ := RuleSet.shownBody?_eq_some.mp shown
      simp [spare.idle name (RuleSet.mem_names_of_get? found)]
  rw [same]
  exact prints_body? grammar collapsed name

/-- What is printed in the place of an expression has a quantifier exactly when the expression has
one with its references replaced. -/
theorem prints_operand (bodies : ∀ rule ∈ grammar.rules, rule.body.NoReference)
    (collapsed : Bool) (spare : grammar.Spare active replaceable) (expr : Expr) :
    ∃ printed, Prints (operand grammar collapsed expr) active printed ∧ printed.isQuantified
      = (expr.inlined (grammar.shownBody? collapsed) replaceable).isQuantified := by
  by_cases bare : expr.NoReference
  · refine ⟨expr, ?_, (bare.isQuantified_inlined _ _).symm⟩
    cases expr with
    | reference name => exact absurd rfl (bare name)
    | _ => exact prints_pure _
  · obtain ⟨name, rfl⟩ : ∃ name, expr = .reference name := by simpa [Expr.NoReference] using bare
    have finds := prints_body?_of_spare collapsed spare name
    refine ⟨_, finds.map fun body => body.getD (.reference name), ?_⟩
    rw [Expr.inlined]
    cases shown : grammar.shownBody? collapsed name with
    | none => simp
    | some body =>
      obtain ⟨-, -, rule, found, rfl⟩ := RuleSet.shownBody?_eq_some.mp shown
      by_cases member : name ∈ replaceable
      · have body := bodies rule (RuleSet.get?_eq_some found).1
        simp [member, body.isQuantified_inlined]
      · simp [member]

/-- A printer prints an expression with those references replaced that may still be. -/
theorem prints_inlined (bodies : ∀ rule ∈ grammar.rules, rule.body.NoReference)
    (collapsed : Bool) (spare : grammar.Spare active replaceable) (expr : Expr)
    (whole quantified : Bool)
    (proper : whole = true → expr.NoReference) :
    Prints (print grammar collapsed whole quantified expr) active
      ((expr.inlined (grammar.shownBody? collapsed) replaceable).lexemes whole quantified) := by
  have inner (expr : Expr) (isWhole : false = true) : expr.NoReference :=
    absurd isWhole Bool.false_ne_true
  revert active whole quantified
  apply Expr.inlined.induct (grammar.shownBody? collapsed)
    (fun replaceable expr => ∀ {active}, grammar.Spare active replaceable →
      ∀ whole quantified, (whole = true → expr.NoReference) →
        Prints (print grammar collapsed whole quantified expr) active
          ((expr.inlined (grammar.shownBody? collapsed) replaceable).lexemes whole quantified))
    (fun replaceable items => ∀ {active}, grammar.Spare active replaceable →
      Prints (printAll grammar collapsed items) active
        (Expr.lexemesOfAll (Expr.inlinedAll (grammar.shownBody? collapsed) replaceable items)))
  case case1 =>
    intro replaceable name body found member inductionHypothesis active spare whole quantified
      proper
    have apart : whole = false := Bool.eq_false_iff.mpr fun isWhole => proper isWhole name rfl
    obtain ⟨-, -, rule, ruleFound, rfl⟩ := RuleSet.shownBody?_eq_some.mp found
    have outside := (spare.idle name (RuleSet.mem_names_of_get? ruleFound)).mp member
    have finds := prints_body?_of_spare collapsed spare name
    rw [if_pos member, found] at finds
    have prints := inductionHypothesis (spare.erase name) false quantified (inner rule.body)
    simp only [Expr.inlined, found, member, if_true, apart]
    rw [print]
    exact finds.bind (prints.inside outside id)
  case case2 =>
    intro replaceable name body found absent active spare whole quantified proper
    have finds := prints_body?_of_spare collapsed spare name
    rw [if_neg absent] at finds
    simp only [Expr.inlined, found, absent, if_false]
    rw [print]
    exact finds.bind (prints_pure _)
  case case3 =>
    intro replaceable name none active spare whole quantified proper
    have finds := prints_body?_of_spare collapsed spare name
    rw [none, ite_self] at finds
    simp only [Expr.inlined, none]
    rw [print]
    exact finds.bind (prints_pure _)
  case case4 =>
    intro replaceable items inductionHypothesis active spare whole quantified proper
    rw [Expr.inlined, Expr.lexemes, print]
    exact (inductionHypothesis spare).map _
  case case5 =>
    intro replaceable items inductionHypothesis active spare whole quantified proper
    rw [Expr.inlined, Expr.lexemes, print]
    exact (inductionHypothesis spare).map _
  case case6 =>
    intro replaceable item separator inductionHypothesis active spare whole quantified proper
    rw [Expr.inlined, Expr.lexemes, print]
    exact (inductionHypothesis spare false false (inner separator)).map _
  case case7 =>
    intro replaceable quantifier item inductionHypothesis active spare whole quantified proper
    obtain ⟨printed, operand, same⟩ := prints_operand bodies collapsed spare item
    rw [Expr.inlined, Expr.lexemes, print, ← same]
    exact (inductionHypothesis spare false true (inner item)).bind (operand.map _)
  case case8 =>
    -- What is left has no part that is printed by itself.
    intro replaceable expr notReference notSequence notChoice notList notQuantified active spare
      whole quantified proper
    rw [Expr.inlined, print]
    · exact prints_pure _
    all_goals assumption
  case case9 =>
    intro replaceable active spare
    rw [Expr.inlinedAll, Expr.lexemesOfAll, printAll]
    exact prints_pure _
  case case10 =>
    intro replaceable item rest first others active spare
    rw [Expr.inlinedAll, Expr.lexemesOfAll, printAll]
    exact (first spare false false (inner item)).bind ((others spare).map _)

/-- A printer in the body of a rule prints the alternatives of the rule. -/
theorem prints_lines (bodies : ∀ rule ∈ grammar.rules, rule.body.NoReference)
    (distinct : grammar.names.Nodup) (collapsed : Bool) {rule : Rule}
    (member : rule ∈ grammar.rules) :
    Prints (lines grammar collapsed rule) [rule.name]
      (grammar.production (grammar.shownBody? collapsed) rule).alternatives := by
  have spare := RuleSet.spare_replaceable distinct rule
  have inlined (expr : Expr) := prints_inlined bodies collapsed spare expr false false nofun
  unfold lines RuleSet.production
  cases form : rule.body with
  | choice items =>
    exact prints_printAll fun item _ => inlined item
  | list item separator =>
    exact (inlined (.reference item)).bind
      ((inlined separator).bind ((inlined (.reference item)).map _))
  | _ =>
    have whole := prints_inlined bodies collapsed spare rule.body true false
      fun _ => bodies rule member
    rw [form] at whole
    exact whole.map _

/-- A printer that is in no body prints the production of a rule. -/
theorem prints_production (bodies : ∀ rule ∈ grammar.rules, rule.body.NoReference)
    (distinct : grammar.names.Nodup) (collapsed : Bool) {rule : Rule}
    (member : rule ∈ grammar.rules) :
    Prints (production grammar collapsed rule) []
      (grammar.production (grammar.shownBody? collapsed) rule) :=
  (prints_lines bodies distinct collapsed member).inside List.not_mem_nil (Production.mk rule.name)

/-- What holds of printers for the rules of a grammar. -/
structure Reliable (grammar : RuleSet) : Prop where
  /-- A rule is printed as hypertext whatever was printed before. The printer goes into no body
  while it is in it, and comes out of all bodies that it goes into. -/
  hypertext : ∀ collapsed, ∀ rule ∈ grammar.rules, Prints (hypertext grammar collapsed rule) []
    (Markup.writeAll (Html.trees (Html.production grammar collapsed rule)))
  /-- The same holds for the plain notation. -/
  text : ∀ rule ∈ grammar.rules, Prints (text grammar rule) []
    (Plain.write (Plain.production grammar rule))
  /-- One printer prints any rules, in any order and any number of times, as it prints each of them
  by itself. -/
  hypertexts : ∀ collapsed, ∀ rules ⊆ grammar.rules,
    Prints (rules.mapM (Printer.hypertext grammar collapsed)) [] (rules.map fun rule =>
      Markup.writeAll (Html.trees (Html.production grammar collapsed rule)))
  /-- The same holds for the plain notation. -/
  texts : ∀ rules ⊆ grammar.rules, Prints (rules.mapM (Printer.text grammar)) []
    (rules.map fun rule => Plain.write (Plain.production grammar rule))

end Printer

/-- Printing the rules of an accepted description ends, however the rules refer to each other, and
one printer does for all of them. -/
theorem printing_ends {description : Entries Json} {delist : Bool} {grammar : RuleSet}
    (distinct : description.Distinct) (valid : validate description delist = .ok grammar) :
    Printer.Reliable grammar := by
  have differ : grammar.names.Nodup := names_of_validate valid ▸ distinct
  have bodies : ∀ rule ∈ grammar.rules, rule.body.NoReference :=
    fun _ member => RuleSet.noReference_of_validate valid member
  have hypertext (collapsed : Bool) (rule : Rule) (member : rule ∈ grammar.rules) :
      Printer.Prints (Printer.hypertext grammar collapsed rule) []
        (Markup.writeAll (Html.trees (Html.production grammar collapsed rule))) :=
    (Printer.prints_production bodies differ collapsed member).map _
  have text (rule : Rule) (member : rule ∈ grammar.rules) :
      Printer.Prints (Printer.text grammar rule) [] (Plain.write (Plain.production grammar rule)) :=
    (Printer.prints_production bodies differ false member).map _
  exact {
    hypertext
    text
    hypertexts := fun collapsed rules subset =>
      .series fun rule listed => hypertext collapsed rule (subset listed)
    texts := fun rules subset => .series fun rule listed => text rule (subset listed) }

/-- Two rules that are shown in the place of each other, one of which also uses itself. -/
def eachOther : Entries Json :=
  [("pair", .obj [("sequence", .arr [.str "half", .obj [("zeroOrMore", .str "half")]])]),
    ("half", .obj [("oneOrMore", .obj [("sequence", .arr [.obj [("token", .str "/")], .str "pair",
      .str "half"])]), ("inline", .bool true)])]

/-- The grammar of the two rules. -/
def eachOtherGrammar : RuleSet :=
  ⟨[⟨"pair", .sequence [.reference "half", .quantified .zeroOrMore (.reference "half")], none, true,
      none, none, ["half"], ["half"]⟩,
    ⟨"half", .quantified .oneOrMore (.sequence [.token "/", .reference "pair", .reference "half"]),
      some true, true, none, none, ["pair", "half"], ["pair", "half"]⟩]⟩

/-- Rules that are shown in the place of each other are printed. -/
theorem printing_each_other_ends :
    eachOther.Distinct ∧ validate eachOther false = .ok eachOtherGrammar ∧
      Printer.Reliable eachOtherGrammar := by
  have distinct : eachOther.Distinct := by simp [Entries.Distinct, Entries.names, eachOther]
  have valid : validate eachOther false = .ok eachOtherGrammar := by cbv
  exact ⟨distinct, valid, printing_ends distinct valid⟩

end GrammarView
