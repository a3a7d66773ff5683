import GrammarView.Proofs.CollapsedListing
import GrammarView.Proofs.Delisting
import GrammarView.Proofs.Replacement
import GrammarView.View

/-!
# Printing kept lists

A rule that is a list is printed as the recursion that the list abbreviates, whether it has been
read as that recursion or kept as a list. So where lists are whole bodies only, listings that
replace no references do not show how they have been read.
-/

namespace GrammarView

/-- Whether an expression is anything but a list. -/
def Expr.NoList (expr : Expr) : Prop :=
  ∀ item separator, expr ≠ .list item separator

/-- Whether no list stands inside the body of a rule: only the whole body may be one. -/
def Rule.NoListInside (rule : Rule) : Prop :=
  ∀ part ∈ rule.body.parts.tail, part.NoList

namespace Expr

/-- Nothing is replaced by recursion in an expression without lists. -/
theorem delisted_eq_self {expr : Expr} (noList : Throughout NoList [expr]) :
    expr.delisted = expr := by
  induction expr using inductionOn with
  | sequence items inductionHypothesis =>
    obtain ⟨-, inside⟩ := throughout_sequence.mp noList
    rw [delisted, delistedAll_eq_map, List.map_congr_left fun item member =>
      inductionHypothesis item member (throughout_of_mem inside member), List.map_id']
  | choice items inductionHypothesis =>
    obtain ⟨-, inside⟩ := throughout_choice.mp noList
    rw [delisted, delistedAll_eq_map, List.map_congr_left fun item member =>
      inductionHypothesis item member (throughout_of_mem inside member), List.map_id']
  | list item separator =>
    exact absurd rfl (noList _ (self_mem_partsOfAll _) item separator)
  | quantified quantifier item inductionHypothesis =>
    rw [delisted, inductionHypothesis (throughout_quantified.mp noList).2]
  | _ => rfl

/-- Where no reference has a body nothing is replaced. -/
theorem inlined_none (replaceable : List String) (expr : Expr) :
    expr.inlined (fun _ => none) replaceable = expr := by
  induction expr using inductionOn with
  | sequence items inductionHypothesis | choice items inductionHypothesis =>
    rw [inlined, inlinedAll_eq_map, List.map_congr_left inductionHypothesis, List.map_id']
  | list item separator inductionHypothesis | quantified _ _ inductionHypothesis =>
    rw [inlined, inductionHypothesis]
  | _ => simp only [inlined]

end Expr

/-- The printed form of a rule by itself, no reference replaced. -/
def Rule.printed (rule : Rule) : Production :=
  ⟨rule.name, match rule.body with
    | .choice items => items.map (Expr.lexemes false false)
    | .list item separator =>
      [[.rule item], .rule rule.name :: .gap :: separator.lexemes false false ++ [.gap, .rule item]]
    | body => [body.lexemes true false]⟩

/-- Where no reference has a body a rule is printed by itself, whatever the other rules are. -/
theorem production_none (grammar : RuleSet) :
    grammar.production (fun _ => none) = Rule.printed := by
  funext rule
  rw [RuleSet.production]
  simp only [Expr.inlined_none]
  rfl

/-- A body without a list inside it stays itself when it is delisted, unless it is a list as a whole.
Then the separator stays itself. -/
theorem Rule.NoListInside.delisted {rule : Rule} (noneInside : rule.NoListInside) :
    (∃ item separator, rule.body = .list item separator ∧ separator.delisted = separator) ∨
      rule.body.delistedBody rule.name = rule.body := by
  cases form : rule.body with
  | list item separator =>
    refine .inl ⟨item, separator, rfl, Expr.delisted_eq_self ?_⟩
    rw [NoListInside, form] at noneInside
    rwa [Expr.Throughout, Expr.partsOfAll_singleton]
  | _ =>
    refine .inr (Expr.delisted_eq_self ?_)
    rw [NoListInside, form] at noneInside
    rw [Expr.Throughout, Expr.partsOfAll_singleton]
    refine List.forall_mem_cons.mpr ⟨?_, noneInside⟩
    intro item separator same
    cases same

/-- A rule is printed alike whether its list is kept or not. -/
theorem Delists.printed_eq {kept delisted : Rule} (delists : Delists kept delisted)
    (noneInside : kept.NoListInside) : delisted.printed = kept.printed := by
  obtain ⟨name, body⟩ := delists
  rw [Rule.printed, Rule.printed, name, body]
  obtain ⟨item, separator, list, same⟩ | same := noneInside.delisted
  · rw [list, Expr.delistedBody, same]
    rfl
  · rw [same]

/-- All rules are printed alike. -/
theorem map_printed_eq {kept delisted : List Rule} (delists : List.Forall₂ Delists kept delisted)
    (noneInside : ∀ rule ∈ kept, rule.NoListInside) :
    delisted.map Rule.printed = kept.map Rule.printed := by
  induction delists with
  | nil => rfl
  | cons first _ inductionHypothesis =>
    obtain ⟨here, later⟩ := List.forall_mem_cons.mp noneInside
    rw [List.map_cons, List.map_cons, first.printed_eq here, inductionHypothesis later]

/-- A plain listing is made from the printed rules. -/
theorem plainOf_eq (grammar : RuleSet) : View.plainOf grammar
    = ⟨"\n\n".intercalate ((grammar.rules.map Rule.printed).map Plain.write),
      View.unknownParts (grammar.rules.map Rule.printed)⟩ := by
  rw [List.map_map, ← production_none grammar]
  rfl

/-- A listing that is neither collapsed nor annotated is made from the printed rules. -/
theorem htmlOf_eq (grammar : RuleSet) : View.htmlOf grammar false false
    = ⟨Markup.writeAll ((grammar.rules.map Rule.printed).map fun production =>
        .element "pre" [] (Html.trees production)),
      View.unknownParts (grammar.rules.map Rule.printed)⟩ := by
  have listed : Html.listed grammar false false = grammar.rules := by
    simp [Html.listed, Html.isCollapsed]
  rw [View.htmlOf, Html.listing_eq_map, listed, List.map_map, ← production_none grammar]
  rfl

/-- A description that is accepted in one mode is accepted in both, and if it has lists as whole
bodies only, then the plain listing and the one in hypertext that is neither collapsed nor annotated
are the same for the kept and the delisted rules, with the same reports. -/
theorem kept_lists_print_alike {description : Entries Json} {delist : Bool} {grammar : RuleSet}
    (valid : validate description delist = .ok grammar) :
    ∃ kept delisted, validate description false = .ok kept ∧
      validate description true = .ok delisted ∧
      ((∀ rule ∈ kept.rules, rule.NoListInside) →
        View.plainOf delisted = View.plainOf kept ∧
          View.htmlOf delisted false false = View.htmlOf kept false false) := by
  obtain ⟨kept, delisted, validKept, validDelisted, delists⟩ := validate_both valid
  refine ⟨kept, delisted, validKept, validDelisted, fun noneInside => ?_⟩
  have printed := map_printed_eq delists noneInside
  rw [plainOf_eq, plainOf_eq, htmlOf_eq, htmlOf_eq, printed]
  exact ⟨rfl, rfl⟩

/-- Rows of cells, with separators of several kinds. -/
def separatedRows : Entries Json :=
  [("rows", .obj [("list", .str "row"), ("separator", .obj [("choice", .arr [
      .obj [("token", .str ";")], .obj [("zeroOrMore", .obj [("sequence", .arr [
        .obj [("terminal", .str "blank")], .str "rows"])])]])])]),
    ("row", .obj [("list", .str "cell"), ("separator", .obj [("tokens", .arr [.str ",",
      .str "|"])])]),
    ("cell", .obj [("oneOrMore", .obj [("terminal", .str "digit")])])]

/-- The grammar of the rows, with kept lists. -/
def separatedRowsGrammar : RuleSet :=
  ⟨[⟨"rows", .list "row" (.choice [.token ";",
        .quantified .zeroOrMore (.sequence [.terminal "blank", .reference "rows"])]), none, true,
      none, none, ["rows", "row"], ["rows"]⟩,
    ⟨"row", .list "cell" (.tokens [",", "|"]), none, true, none, none, ["cell"], ["rows"]⟩,
    ⟨"cell", .quantified .oneOrMore (.terminal "digit"), none, true, none, none, [], ["row"]⟩]⟩

/-- Rows of cells are printed alike in both modes. -/
theorem separated_rows_print_alike :
    validate separatedRows false = .ok separatedRowsGrammar ∧
      (∀ rule ∈ separatedRowsGrammar.rules, rule.NoListInside) ∧
      ∃ delisted, validate separatedRows true = .ok delisted ∧
        View.plainOf delisted = View.plainOf separatedRowsGrammar ∧
        View.htmlOf delisted false false = View.htmlOf separatedRowsGrammar false false := by
  have valid : validate separatedRows false = .ok separatedRowsGrammar := by cbv
  have noneInside : ∀ rule ∈ separatedRowsGrammar.rules, rule.NoListInside := by
    simp [separatedRowsGrammar, Rule.NoListInside, Expr.parts, Expr.partsOfAll, Expr.NoList]
  obtain ⟨kept, delisted, validKept, validDelisted, alike⟩ := kept_lists_print_alike valid
  obtain rfl := Except.ok.inj (valid.symm.trans validKept)
  exact ⟨valid, noneInside, delisted, validDelisted, alike noneInside⟩

end GrammarView
