import GrammarView.Proofs.Annotations
import GrammarView.Proofs.Replacement

/-!
# Texts in listings

Where the texts of a listing come from. A listing has a block for each of its rules. In front of the
block stands the name of the rule, and behind it only words of the grammar and what stands between
them; the words of the body of the rule are among these, unless they are names of rules whose bodies
are shown. A remark gives the names of the rules that refer to a rule.
-/

namespace GrammarView

namespace Expr

variable {body? : String → Option Expr} {expr : Expr} {word : Lexeme} {whole operand : Bool}

/-- With references replaced an expression has words of its own and of the bodies only. -/
theorem mem_words_of_inlined {replaceable : List String}
    (has : word ∈ collect words [expr.inlined body? replaceable]) :
    word ∈ collect words [expr]
      ∨ ∃ name body, body? name = some body ∧ word ∈ collect words [body] := by
  revert has
  apply inlined.induct body?
    (fun replaceable expr => word ∈ collect words [expr.inlined body? replaceable] →
      word ∈ collect words [expr]
        ∨ ∃ name body, body? name = some body ∧ word ∈ collect words [body])
    (fun replaceable items => word ∈ collect words (inlinedAll body? replaceable items) →
      word ∈ collect words items
        ∨ ∃ name body, body? name = some body ∧ word ∈ collect words [body])
  case case1 =>
    intro replaceable name body found member inductionHypothesis has
    simp only [inlined, found, member, if_true] at has
    exact .inr ((inductionHypothesis has).elim (fun inside => ⟨name, body, found, inside⟩) id)
  case case2 =>
    intro replaceable name body found absent has
    simp only [inlined, found, absent, if_false] at has
    exact .inl has
  case case3 =>
    intro replaceable name none has
    simp only [inlined, none] at has
    exact .inl has
  case case4 | case5 =>
    intro replaceable items inductionHypothesis has
    simp only [inlined, mem_collect_sequence, mem_collect_choice, or_assoc] at has ⊢
    exact has.imp_right inductionHypothesis
  case case6 =>
    intro replaceable item separator inductionHypothesis has
    simp only [inlined, mem_collect_list, or_assoc] at has ⊢
    exact has.imp_right inductionHypothesis
  case case7 =>
    intro replaceable quantifier item inductionHypothesis has
    simp only [inlined, mem_collect_quantified, or_assoc] at has ⊢
    exact has.imp_right inductionHypothesis
  case case8 =>
    intro replaceable expr notReference notSequence notChoice notList notQuantified has
    rw [inlined] at has
    · exact .inl has
    all_goals assumption
  case case9 =>
    intro replaceable has
    rw [inlinedAll] at has
    exact .inl has
  case case10 =>
    intro replaceable item rest first others has
    rw [inlinedAll, mem_collect_cons] at has
    rw [mem_collect_cons]
    exact has.elim (fun here => (first here).imp_left .inl)
      fun later => (others later).imp_left .inr

/-- A word that is no name of a replaced rule stays where references are replaced. -/
theorem mem_words_inlined {replaceable : List String}
    (stays : ∀ name, word = .rule name → body? name = none)
    (has : word ∈ collect words [expr]) : word ∈ collect words [expr.inlined body? replaceable] := by
  revert has
  apply inlined.induct body?
    (fun replaceable expr => word ∈ collect words [expr] →
      word ∈ collect words [expr.inlined body? replaceable])
    (fun replaceable items => word ∈ collect words items →
      word ∈ collect words (inlinedAll body? replaceable items))
  case case1 =>
    intro replaceable name body found member inductionHypothesis has
    obtain ⟨part, inside, own⟩ := mem_collect_singleton.mp has
    obtain rfl := List.mem_singleton.mp inside
    have none := stays name (List.mem_singleton.mp own)
    rw [found] at none
    contradiction
  case case2 =>
    intro replaceable name body found absent has
    simpa only [inlined, found, absent, if_false] using has
  case case3 =>
    intro replaceable name none has
    simpa only [inlined, none] using has
  case case4 | case5 =>
    intro replaceable items inductionHypothesis has
    simp only [inlined, mem_collect_sequence, mem_collect_choice] at has ⊢
    exact has.imp_right inductionHypothesis
  case case6 =>
    intro replaceable item separator inductionHypothesis has
    simp only [inlined, mem_collect_list] at has ⊢
    exact has.imp_right inductionHypothesis
  case case7 =>
    intro replaceable quantifier item inductionHypothesis has
    simp only [inlined, mem_collect_quantified] at has ⊢
    exact has.imp_right inductionHypothesis
  case case8 =>
    intro replaceable expr notReference notSequence notChoice notList notQuantified has
    rw [inlined]
    · exact has
    all_goals assumption
  case case9 =>
    intro replaceable has
    rw [inlinedAll]
    exact has
  case case10 =>
    intro replaceable item rest first others has
    rw [mem_collect_cons] at has
    rw [inlinedAll, mem_collect_cons]
    exact has.imp first others

end Expr

namespace RuleSet

/-- Whether a lexeme is a word of a grammar: the name of a rule, or a word of a body. -/
def HasWord (grammar : RuleSet) (word : Lexeme) : Prop :=
  ∃ rule ∈ grammar.rules, word = .rule rule.name ∨ word ∈ Expr.collect Expr.words [rule.body]

/-- Whether a listing shows a word as such and no body in the place of it. -/
def Keeps (grammar : RuleSet) (collapsed : Bool) (word : Lexeme) : Prop :=
  ∀ name, word = .rule name → ¬ (collapsed = true ∧ grammar.collapses name = true)

variable {grammar : RuleSet} {collapsed : Bool} {rule : Rule} {word : Lexeme}

/-- What is printed of an expression with words of the grammar has words of the grammar only. -/
theorem hasWord_of_mem_lexemes {expr : Expr} {replaceable : List String} {whole operand : Bool}
    (known : ∀ word ∈ Expr.collect Expr.words [expr], grammar.HasWord word)
    (isWord : word.isWord = true)
    (printed : word ∈ (expr.inlined (grammar.shownBody? collapsed) replaceable).lexemes
      whole operand) : grammar.HasWord word := by
  have has := Expr.mem_collect_singleton.mpr (Expr.exists_part_of_mem_lexemes isWord printed)
  rcases Expr.mem_words_of_inlined has with own | ⟨name, body, found, inside⟩
  · exact known word own
  · obtain ⟨-, -, rule, ruleFound, rfl⟩ := shownBody?_eq_some.mp found
    exact ⟨rule, (get?_eq_some ruleFound).1, .inr inside⟩

/-- The words of a printed rule are words of the grammar. -/
theorem hasWord_of_mem_production (member : rule ∈ grammar.rules) (isWord : word.isWord = true)
    {alternative : List Lexeme}
    (offered : alternative ∈ (Html.production grammar collapsed rule).alternatives)
    (printed : word ∈ alternative) : grammar.HasWord word := by
  have known : ∀ word ∈ Expr.collect Expr.words [rule.body], grammar.HasWord word :=
    fun word has => ⟨rule, member, .inr has⟩
  have inlined {expr : Expr} {whole : Bool}
      (own : ∀ word ∈ Expr.collect Expr.words [expr], word ∈ Expr.collect Expr.words [rule.body])
      (printed : word ∈ (expr.inlined (grammar.shownBody? collapsed)
        (grammar.replaceable rule)).lexemes whole false) : grammar.HasWord word :=
    hasWord_of_mem_lexemes (fun word has => known word (own word has)) isWord printed
  unfold Html.production production at offered
  cases form : rule.body with
  | choice items =>
    rw [form] at offered inlined
    obtain ⟨item, listed, rfl⟩ := List.mem_map.mp offered
    exact inlined (fun word has =>
      Expr.mem_collect_choice.mpr (.inr (Expr.mem_collect.mpr ⟨item, listed, has⟩))) printed
  | list item separator =>
    rw [form] at offered inlined
    have first (printed : word ∈ ((Expr.reference item).inlined (grammar.shownBody? collapsed)
        (grammar.replaceable rule)).lexemes false false) : grammar.HasWord word :=
      inlined (fun word (own : word ∈ Expr.collect Expr.words [.reference item]) =>
        Expr.mem_collect_list.mpr (.inl own)) printed
    rcases List.mem_cons.mp offered with rfl | again
    · exact first printed
    · obtain rfl := List.mem_singleton.mp again
      simp only [List.mem_append, List.mem_cons] at printed
      rcases printed with (rfl | rfl | separated) | rfl | last
      · exact ⟨rule, member, .inl rfl⟩
      · contradiction
      · exact inlined (fun word has => Expr.mem_collect_list.mpr (.inr has)) separated
      · contradiction
      · exact first last
  | _ =>
    rw [form] at offered inlined
    obtain rfl := List.mem_singleton.mp offered
    exact inlined (fun word => id) printed

/-- Every word of the body of a rule is printed with the rule, unless it is replaced. -/
theorem exists_alternative (keeps : grammar.Keeps collapsed word)
    (has : word ∈ Expr.collect Expr.words [rule.body]) :
    ∃ alternative ∈ (Html.production grammar collapsed rule).alternatives,
      word ∈ alternative := by
  have stays : ∀ name, word = .rule name → grammar.shownBody? collapsed name = none :=
    fun name same => shownBody?_eq_none.mpr (keeps name same)
  have inlined {expr : Expr} {whole : Bool} (has : word ∈ Expr.collect Expr.words [expr]) :
      word ∈ (expr.inlined (grammar.shownBody? collapsed)
        (grammar.replaceable rule)).lexemes whole false :=
    Expr.mem_lexemes_of_mem_collect (Expr.mem_words_inlined stays has)
  unfold Html.production production
  cases form : rule.body with
  | choice items =>
    rw [form] at has
    obtain ⟨item, listed, inside⟩ :=
      Expr.mem_collect.mp ((Expr.mem_collect_choice.mp has).resolve_left List.not_mem_nil)
    exact ⟨_, List.mem_map_of_mem listed, inlined inside⟩
  | list item separator =>
    rw [form] at has
    rcases Expr.mem_collect_list.mp has with own | inside
    · exact ⟨_, .head _, inlined own⟩
    · refine ⟨_, .tail _ (.head _), List.mem_append_left _ ?_⟩
      exact .tail _ (.tail _ (inlined inside))
  | _ =>
    rw [form] at has
    exact ⟨_, .head _, inlined has⟩

end RuleSet

namespace Html

/-- The tree that shows a word: a span of a class for each kind of words, and a fixed text for a part
of no known kind. -/
inductive ShowsWord : Lexeme → Markup → Prop where
  | rule {name} :
    ShowsWord (.rule name) (.element "span" [("class", "rule")] [.text ("<" ++ name ++ ">")])
  | token {text} :
    ShowsWord (.token text) (.element "span" [("class", "token")] [.text ("'" ++ text ++ "'")])
  | terminal {text} :
    ShowsWord (.terminal text)
      (.element "span" [("class", "terminal")] [.text ("[" ++ text ++ "]")])
  | unknown {shown} : ShowsWord (.unknown shown) (.text "<unknown>")

/-- What stands in the block of a rule behind the name of the rule: words of the grammar and what is
between them, with all words of the body of the rule that are kept. -/
structure HoldsWords (grammar : RuleSet) (collapsed : Bool) (rule : Rule) (trees : List Markup) :
    Prop where
  known : ∀ tree ∈ trees,
    (∃ mark, tree = .written mark) ∨ ∃ word, grammar.HasWord word ∧ ShowsWord word tree
  own : ∀ word ∈ Expr.collect Expr.words [rule.body], grammar.Keeps collapsed word →
    ∃ tree ∈ trees, ShowsWord word tree

/-- What a listing has for a rule: a block with the name of the rule and the words of its body, and
in a listing with remarks the names of the rules that refer to it. -/
inductive ShowsRule (grammar : RuleSet) (collapsed : Bool) (rule : Rule) :
    Bool → List Markup → Prop where
  | block {name trees} (named : ShowsWord (.rule rule.name) name)
      (words : HoldsWords grammar collapsed rule trees) :
      ShowsRule grammar collapsed rule false [.element "pre" [] (name :: trees)]
  | remark {block} (shown : ShowsRule grammar collapsed rule false [block]) (usage : Usage) :
      ShowsRule grammar collapsed rule true [block, .element "div" [("class", usage.className)]
        [.text (usage.words ++ ", ".intercalate (grammar.referrers rule.name))]]

variable {grammar : RuleSet} {collapsed : Bool} {rule : Rule}

/-- A word is spelled by the tree that shows it. -/
theorem showsWord_spell {word : Lexeme} (isWord : word.isWord = true) :
    ShowsWord word (spell word) := by
  cases word with
  | rule | token | terminal | unknown => constructor
  | _ => contradiction

/-- The trees of a production are its name and trees that hold its words. -/
theorem holdsWords (collapsed : Bool) (member : rule ∈ grammar.rules) : ∃ trees,
    Html.trees (production grammar collapsed rule) = spell (.rule rule.name) :: trees ∧
      HoldsWords grammar collapsed rule trees := by
  refine ⟨_, rfl, fun tree shown => ?known, fun word has keeps => ?own⟩
  case known =>
    rcases exists_of_mem_trees (.tail _ shown) with rfl | ⟨mark, -, rfl⟩ |
      ⟨lexemes, offered, lexeme, printed, rfl⟩
    · exact .inr ⟨_, ⟨rule, member, .inl rfl⟩, showsWord_spell rfl⟩
    · exact .inl ⟨mark, rfl⟩
    · by_cases isWord : lexeme.isWord = true
      · exact .inr ⟨lexeme, RuleSet.hasWord_of_mem_production member isWord offered printed,
          showsWord_spell isWord⟩
      · left
        cases lexeme with
        | rule | token | terminal | unknown => exact absurd rfl isWord
        | _ => exact ⟨_, rfl⟩
  case own =>
    obtain ⟨alternative, offered, printed⟩ := RuleSet.exists_alternative keeps has
    obtain ⟨part, -, inside⟩ := Expr.mem_collect_singleton.mp has
    have spelled : spell word ∈ alternative.map spell := List.mem_map_of_mem printed
    exact ⟨spell word, .tail _ ((infix_intercalate (List.mem_map_of_mem offered)).subset spelled),
      showsWord_spell (Expr.isWord_of_mem_words inside)⟩

/-- A remark gives the names of the rules that refer to its rule. -/
theorem exists_usage (grammar : RuleSet) (collapsed : Bool) (rule : Rule) : ∃ usage : Usage,
    annotate grammar collapsed rule = .element "div" [("class", usage.className)]
      [.text (usage.words ++ ", ".intercalate (grammar.referrers rule.name))] := by
  unfold annotate
  dsimp only
  split
  case isTrue none =>
    rw [none]
    exact ⟨.unused, rfl⟩
  case isFalse =>
    split
    case isTrue => exact ⟨.collapsed, rfl⟩
    case isFalse => exact ⟨.used, rfl⟩

/-- Every rule that is listed is shown by its name, its words and the rules that refer to it. -/
theorem exists_showsRule (grammar : RuleSet) (collapsed annotated : Bool) : ∃ groups,
    List.Forall₂ (fun rule => ShowsRule grammar collapsed rule annotated)
      (listed grammar collapsed annotated) groups ∧
    listing grammar collapsed annotated = groups.flatten := by
  refine ⟨_, ?_, List.flatMap_def⟩
  rw [List.forall₂_map_right_iff, List.forall₂_same]
  intro rule listed
  obtain ⟨trees, same, words⟩ := holdsWords collapsed (List.mem_filter.mp listed).1
  have block : ShowsRule grammar collapsed rule false [entry grammar collapsed rule] := by
    rw [entry, same]
    exact .block (showsWord_spell rfl) words
  cases annotated with
  | false => exact block
  | true =>
    obtain ⟨usage, remark⟩ := exists_usage grammar collapsed rule
    exact remark ▸ .remark block usage

end Html

end GrammarView
