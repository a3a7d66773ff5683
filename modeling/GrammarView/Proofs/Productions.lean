import GrammarView.Proofs.Descriptions
import GrammarView.Proofs.Replacement
import GrammarView.Proofs.Spans
import Mathlib

/-!
# Reading listings back

A written production is read back as the body of its rule with the replacements that the listing
makes. Nothing is lost but how sequences were nested, and where a sequence or a choice had only one
part.
-/

namespace GrammarView

/-- Whether every part of a rule that offers alternatives offers at least one. -/
def Rule.NoEmptyChoice (rule : Rule) : Prop :=
  .choice [] ∉ rule.body.parts ∧ .tokens [] ∉ rule.body.parts

/-- A delisted body in which no choice is empty can be printed. -/
theorem printable_of_validate {description : Entries Json} {grammar : RuleSet}
    (valid : validate description true = .ok grammar) {rule : Rule} (member : rule ∈ grammar.rules)
    (filled : rule.NoEmptyChoice) : Expr.Throughout Expr.Printable [rule.body] := by
  intro part inside
  have plain := plain_of_validate valid member part inside
  obtain ⟨-, ⟨⟩ | ⟨_, ⟨⟩⟩, inside⟩ := Expr.mem_partsOfAll.mp inside
  cases part with
  | tokens texts => exact fun empty => filled.2 (empty ▸ inside)
  | choice items => exact fun empty => filled.1 (empty ▸ inside)
  | list | foreign => exact plain
  | _ => trivial

/-- The production of a rule in a hypertext listing is read back as its name and its body, with the
replacements that the listing makes. -/
theorem production_reads_back {description : Entries Json} {grammar : RuleSet}
    (distinct : description.Distinct) (valid : validate description true = .ok grammar)
    (filled : ∀ rule ∈ grammar.rules, rule.NoEmptyChoice) {rule : Rule} (member : rule ∈ grammar.rules)
    (collapsed : Bool) :
    ∃ shown read,
      (∀ other, Shows grammar collapsed [rule.name] [rule.body] [other] ↔ other = shown) ∧
        readProduction
            (Markup.writeTrees (Html.trees (Html.production grammar collapsed rule)))
          = some (.rule rule.name, read) ∧
        read.flatten = shown.phrase.flatten := by
  have names : grammar.names.Nodup := names_of_validate valid ▸ distinct
  have spare := RuleSet.spare_replaceable names rule
  let body? := grammar.shownBody? collapsed
  let shown := rule.body.inlined body? (grammar.replaceable rule)
  have shows : Shows grammar collapsed [rule.name] [rule.body] [shown] :=
    shows_inlined spare rule.body
  have rules : ∀ rule ∈ grammar.rules, Expr.Throughout Expr.Printable [rule.body] :=
    fun rule member => printable_of_validate valid member (filled rule member)
  have printable : Expr.Throughout Expr.Printable [shown] :=
    shows.printable rules (rules rule member)
  obtain ⟨read, reads, means⟩ := Expr.read_lexemes printable
  refine ⟨shown, read, ?_, ?_, means⟩
  · intro other
    constructor
    · intro listed
      simpa using listed.eq_inlined spare
    · rintro rfl
      exact shows
  · have notList : ∀ item separator, rule.body ≠ .list item separator := by
      intro item separator form
      have plain := plain_of_validate valid member rule.body (Expr.self_mem_partsOfAll rule.body)
      rwa [form] at plain
    have joined : [Lexeme.bar].intercalate (Html.production grammar collapsed rule).alternatives
        = shown.lexemes true false :=
      grammar.intercalate_alternatives body? notList
    have known : ∀ lexemes ∈ (Html.production grammar collapsed rule).alternatives,
        ∀ text, .unknown text ∉ lexemes := by
      intro lexemes listed text inside
      exact Expr.unknown_not_mem_lexemes printable true false text
        (joined ▸ (infix_intercalate listed).subset inside)
    rw [readProduction, (scans_production known).scan, joined]
    change (Phrase.read (Lexeme.signs (shown.lexemes true false))).map _ = _
    rw [reads]
    rfl

/-- Items with commas between them, and items inside items. -/
def commaList : Entries Json :=
  [("items", .obj [("sequence", .arr [.str "item", .obj [("zeroOrMore", .str "further")]])]),
    ("further", .obj [("sequence", .arr [.obj [("token", .str ",")], .str "item"]),
      ("inline", .bool true)]),
    ("item", .obj [("choice", .arr [.obj [("terminal", .str "digit")],
      .obj [("sequence", .arr [.obj [("token", .str "<")], .str "items"])]])])]

/-- The rule of items with commas between them. -/
def commaListRule : Rule :=
  ⟨"items", .sequence [.reference "item", .quantified .zeroOrMore (.reference "further")], none,
    true, none, none, ["item", "further"], ["item"]⟩

/-- The grammar of items with commas between them. -/
def commaListGrammar : RuleSet :=
  ⟨[commaListRule,
    ⟨"further", .sequence [.token ",", .reference "item"], some true, true, none, none, ["item"],
      ["items"]⟩,
    ⟨"item", .choice [.terminal "digit", .sequence [.token "<", .reference "items"]], some false,
      true, none, none, ["items"], ["items", "further"]⟩]⟩

/-- The production of items, in which the further ones are shown in parentheses, is read back. -/
theorem comma_list_reads_back :
    commaList.Distinct ∧ validate commaList true = .ok commaListGrammar ∧
      (∀ rule ∈ commaListGrammar.rules, rule.NoEmptyChoice) ∧ commaListRule ∈ commaListGrammar.rules ∧
      ∃ shown read,
        (∀ other, Shows commaListGrammar true ["items"] [commaListRule.body] [other] ↔ other = shown) ∧
          readProduction
              (Markup.writeTrees (Html.trees (Html.production commaListGrammar true commaListRule)))
            = some (.rule "items", read) ∧
          read.flatten = shown.phrase.flatten := by
  have distinct : commaList.Distinct := by
    simp [Entries.Distinct, Entries.names, commaList]
  have valid : validate commaList true = .ok commaListGrammar := by cbv
  have filled : ∀ rule ∈ commaListGrammar.rules, rule.NoEmptyChoice := by
    simp [commaListGrammar, commaListRule, Rule.NoEmptyChoice, Expr.parts, Expr.partsOfAll]
  have member : commaListRule ∈ commaListGrammar.rules := .head _
  exact ⟨distinct, valid, filled, member,
    production_reads_back distinct valid filled member true⟩

end GrammarView
