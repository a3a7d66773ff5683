import GrammarView.Proofs.Descriptions
import GrammarView.Proofs.Language

/-!
# Reading lists as recursion

On request a list is read as the recursion that it abbreviates: a whole body refers to its own
rule, and a list inside a body becomes a repetition. Both readings accept the same descriptions
and give every rule the same words, although the equations that they solve differ.
-/

open scoped Computability

namespace GrammarView

namespace Expr

mutual

/-- The expression with all lists replaced by the repetitions that they abbreviate. -/
def delisted : Expr → Expr
  | .sequence items => .sequence (delistedAll items)
  | .choice items => .choice (delistedAll items)
  | .list item separator =>
    .sequence [.reference item,
      .quantified .zeroOrMore (.sequence [separator.delisted, .reference item])]
  | .quantified quantifier item => .quantified quantifier item.delisted
  | expr => expr

/-- The expressions with all lists replaced by the repetitions that they abbreviate. -/
def delistedAll : List Expr → List Expr
  | [] => []
  | item :: rest => item.delisted :: delistedAll rest

end

/-- The expressions are replaced one by one. -/
theorem delistedAll_eq_map (items : List Expr) : delistedAll items = items.map delisted := by
  induction items with
  | nil => rfl
  | cons item rest inductionHypothesis => simp [delistedAll, inductionHypothesis]

/-- The body of a rule with all lists replaced. A list that is the whole body becomes a choice in
which the rule refers to itself. -/
def delistedBody (rule : String) : Expr → Expr
  | .list item separator =>
    .choice [.reference item, .sequence [.reference rule, separator.delisted, .reference item]]
  | expr => expr.delisted

/-- Only a whole body may refer to its own rule. -/
def delistedIn (rule : String) (whole : Bool) : Expr → Expr :=
  if whole then delistedBody rule else delisted

section DelistedIn

variable (rule : String) (whole : Bool)

/-- A part of one text is no list. -/
theorem delistedIn_leaf (leaf : LeafTag) (text : String) :
    (leaf.expr text).delistedIn rule whole = leaf.expr text := by
  cases leaf <;> cases whole <;> rfl

theorem delistedIn_tokens (texts : List String) :
    (tokens texts).delistedIn rule whole = tokens texts := by
  cases whole <;> rfl

/-- The items of a sequence are inside a body. -/
theorem delistedIn_sequence (items : List Expr) :
    (sequence items).delistedIn rule whole = sequence (items.map (delistedIn rule false)) := by
  cases whole <;> simp [delistedIn, delistedBody, delisted, delistedAll_eq_map]

/-- The items of a choice are inside a body. -/
theorem delistedIn_choice (items : List Expr) :
    (choice items).delistedIn rule whole = choice (items.map (delistedIn rule false)) := by
  cases whole <;> simp [delistedIn, delistedBody, delisted, delistedAll_eq_map]

/-- A part with a quantifier is inside a body. -/
theorem delistedIn_quantified (quantifier : Quantifier) (item : Expr) :
    (quantified quantifier item).delistedIn rule whole
      = quantified quantifier (item.delistedIn rule false) := by
  cases whole <;> rfl

end DelistedIn

/-- A repetition has the words of the list that it replaces. -/
theorem language_delisted (rules : String → Language Symbol) (readAlias : String → Symbol)
    (expr : Expr) : expr.delisted.language rules readAlias = expr.language rules readAlias := by
  induction expr using Expr.inductionOn with
  | sequence items inductionHypothesis =>
    simp only [delisted, delistedAll_eq_map, language, languages_eq_map, List.map_map]
    exact congrArg List.prod (List.map_congr_left inductionHypothesis)
  | choice items inductionHypothesis =>
    simp only [delisted, delistedAll_eq_map, language, languages_eq_map, List.map_map]
    exact congrArg List.sum (List.map_congr_left inductionHypothesis)
  | list item separator inductionHypothesis =>
    simp [delisted, language, languages, separated, Quantifier.language, inductionHypothesis]
  | quantified quantifier item inductionHypothesis =>
    simp only [delisted, language, inductionHypothesis]
  | _ => rfl

/-- The words of a list that has become a recursion. -/
theorem language_delistedBody_list (rules : String → Language Symbol)
    (readAlias : String → Symbol) (rule item : String) (separator : Expr) :
    ((Expr.list item separator).delistedBody rule).language rules readAlias
      = rules item + rules rule * (separator.language rules readAlias * rules item) := by
  simp [delistedBody, language, languages, language_delisted]

end Expr

/-- One more separator and item after a list make a list. -/
theorem separated_closed (item separator : Language Symbol) :
    item + separated item separator * (separator * item) ≤ separated item separator := by
  have further : separated item separator * (separator * item) ≤ separated item separator :=
    calc item * (separator * item)∗ * (separator * item)
      _ = item * ((separator * item)∗ * (separator * item)) := mul_assoc _ _ _
      _ ≤ item * (separator * item)∗ := mul_le_mul' le_rfl kstar_mul_le_kstar
  have first : item ≤ separated item separator :=
    calc item
      _ = item * 1 := (mul_one item).symm
      _ ≤ item * (separator * item)∗ := mul_le_mul' le_rfl one_le_kstar
  exact add_le first further

/-- Words that hold the items, and with every word the word with one more separator and item, hold
the lists. -/
theorem separated_le {item separator words : Language Symbol}
    (closed : item + words * (separator * item) ≤ words) : separated item separator ≤ words :=
  mul_kstar_le (le_trans le_self_add closed) (le_trans le_add_self closed)

/-- A rule with a kept body and the same rule with a delisted one. -/
def Delists (kept delisted : Rule) : Prop :=
  delisted.name = kept.name ∧ delisted.body = kept.body.delistedBody kept.name

/-- Under a name both lists have a rule or none has, and the one is the other delisted. -/
theorem Delists.rel_find? {kept delisted : List Rule} (delists : List.Forall₂ Delists kept delisted)
    (name : String) :
    Option.Rel Delists (kept.find? (·.name == name)) (delisted.find? (·.name == name)) := by
  induction delists with
  | nil => exact .none
  | @cons keptRule delistedRule _ _ first _ inductionHypothesis =>
    by_cases same : keptRule.name = name
    · simpa [List.find?_cons, first.1, same] using first
    · simpa [List.find?_cons, first.1, same] using inductionHypothesis

namespace RuleSet

variable {kept delisted : RuleSet} {readAlias : String → String → Symbol}

/-- A delisted rule is found where the kept one is. -/
theorem get?_kept (delists : List.Forall₂ Delists kept.rules delisted.rules) {name : String}
    {rule : Rule} (found : delisted.get? name = some rule) :
    ∃ keptRule, kept.get? name = some keptRule ∧ Delists keptRule rule := by
  have related := Delists.rel_find? delists name
  rw [show delisted.rules.find? (·.name == name) = some rule from found] at related
  unfold get?
  generalize kept.rules.find? (·.name == name) = outcome at related
  cases related with
  | some delists => exact ⟨_, rfl, delists⟩

/-- A kept rule is found where the delisted one is. -/
theorem get?_delisted (delists : List.Forall₂ Delists kept.rules delisted.rules) {name : String}
    {rule : Rule} (found : kept.get? name = some rule) :
    ∃ delistedRule, delisted.get? name = some delistedRule ∧ Delists rule delistedRule := by
  have related := Delists.rel_find? delists name
  rw [show kept.rules.find? (·.name == name) = some rule from found] at related
  unfold get?
  generalize delisted.rules.find? (·.name == name) = outcome at related
  cases related with
  | some delists => exact ⟨_, rfl, delists⟩

/-- The words of the kept rules solve the equations of the delisted ones. -/
theorem language_delisted_le (delists : List.Forall₂ Delists kept.rules delisted.rules) :
    delisted.language readAlias ≤ kept.language readAlias := by
  refine language_le fun name rule found => ?_
  obtain ⟨keptRule, keptFound, -, body⟩ := get?_kept delists found
  obtain ⟨-, rfl⟩ := get?_eq_some keptFound
  have solved := language_of_get? readAlias keptFound
  rw [body]
  cases form : keptRule.body with
  | list item separator =>
    rw [form, Expr.language] at solved
    rw [Expr.language_delistedBody_list, solved]
    exact separated_closed _ _
  | _ =>
    rw [solved, form]
    exact (Expr.language_delisted _ _ _).le

/-- The words of the delisted rules solve the equations of the kept ones. -/
theorem language_kept_le (delists : List.Forall₂ Delists kept.rules delisted.rules) :
    kept.language readAlias ≤ delisted.language readAlias := by
  refine language_le fun name rule found => ?_
  obtain ⟨delistedRule, delistedFound, -, body⟩ := get?_delisted delists found
  obtain ⟨-, rfl⟩ := get?_eq_some found
  have solved := language_of_get? readAlias delistedFound
  rw [body] at solved
  cases form : rule.body with
  | list item separator =>
    rw [form, Expr.language_delistedBody_list] at solved
    exact separated_le solved.ge
  | _ =>
    rw [solved, form]
    exact (Expr.language_delisted _ _ _).ge

end RuleSet

namespace Validation

variable {rule : String} {names : List String} {delist whole : Bool} {values : List Json}
  {exprs : List Expr} {references : List String}

/-- There is one expression for every part. -/
theorem Reads.length_eq {scope : Scope} (reads : Reads scope whole values exprs references) :
    exprs.length = values.length := by
  induction reads with
  | cons _ _ first remaining => simp_all
  | _ => rfl

/-- Parts that are read in one way are read in both ways, and the one reading is the other
delisted. -/
theorem Reads.both (known : rule ∈ names)
    (reads : Reads ⟨rule, names, delist⟩ whole values exprs references) :
    ∃ kept before after, Reads ⟨rule, names, false⟩ whole values kept before ∧
      Reads ⟨rule, names, true⟩ whole values (kept.map (Expr.delistedIn rule whole)) after := by
  induction reads with
  | nil => exact ⟨[], [], [], .nil, .nil⟩
  | cons first remaining firstBoth remainingBoth =>
    obtain ⟨kept, _, _, keptFirst, delistedFirst⟩ := firstBoth
    obtain ⟨others, _, _, keptOthers, delistedOthers⟩ := remainingBoth
    obtain ⟨expr, rfl⟩ := List.length_eq_one_iff.mp keptFirst.length_eq
    exact ⟨expr :: others, _, _, .cons keptFirst keptOthers, .cons delistedFirst delistedOthers⟩
  | @reference name member => exact ⟨[.reference name], _, _, .reference member, .reference member⟩
  | @leaf whole members word leaf text single tag =>
    refine ⟨[leaf.expr text], [], [], .leaf single tag, ?_⟩
    rw [List.map_singleton, Expr.delistedIn_leaf]
    exact .leaf single tag
  | @tokens whole members word texts single tag =>
    refine ⟨[.tokens texts], [], [], .tokens single tag, ?_⟩
    rw [List.map_singleton, Expr.delistedIn_tokens]
    exact .tokens single tag
  | sequence single tag parts both =>
    obtain ⟨kept, before, after, keptParts, delistedParts⟩ := both
    refine ⟨[.sequence kept], before, after, .sequence single tag keptParts, ?_⟩
    rw [List.map_singleton, Expr.delistedIn_sequence]
    exact .sequence single tag delistedParts
  | choice single tag parts both =>
    obtain ⟨kept, before, after, keptParts, delistedParts⟩ := both
    refine ⟨[.choice kept], before, after, .choice single tag keptParts, ?_⟩
    rw [List.map_singleton, Expr.delistedIn_choice]
    exact .choice single tag delistedParts
  | @quantified whole members word value quantifier item references single tag part both =>
    obtain ⟨kept, before, after, keptPart, delistedPart⟩ := both
    obtain ⟨expr, rfl⟩ := List.length_eq_one_iff.mp keptPart.length_eq
    refine ⟨[.quantified quantifier expr], before, after, .quantified single tag keptPart, ?_⟩
    rw [List.map_singleton, Expr.delistedIn_quantified]
    exact .quantified single tag delistedPart
  | @list whole members word item between separator references single tag separated part member
      recursive both =>
    obtain ⟨kept, before, after, keptPart, delistedPart⟩ := both
    obtain ⟨expr, rfl⟩ := List.length_eq_one_iff.mp keptPart.length_eq
    let delistedReading :=
      listReading ⟨rule, names, true⟩ whole item ⟨expr.delistedIn rule false, after⟩
    refine ⟨[.list item expr], _, delistedReading.references,
      .list single tag separated keptPart member nofun, ?_⟩
    have same : (Expr.list item expr).delistedIn rule whole = delistedReading.expr := by
      cases whole <;> rfl
    rw [List.map_singleton, same]
    exact .list single tag separated delistedPart member (fun _ _ => known)

/-- A rule that is read in one way is read in both ways, and the one is the other delisted. -/
theorem ReadsRule.both {name : String} {value : Json} {given : Rule} (known : name ∈ names)
    (reads : ReadsRule names delist name value given) :
    ∃ kept delisted, ReadsRule names false name value kept ∧
      ReadsRule names true name value delisted ∧ Delists kept delisted := by
  cases reads with
  | rule body inlineFlags railroadFlag leftMargin rightMargin =>
    obtain ⟨kept, before, after, keptBody, delistedBody⟩ := body.both known
    obtain ⟨expr, rfl⟩ := List.length_eq_one_iff.mp keptBody.length_eq
    exact ⟨_, _, .rule keptBody inlineFlags railroadFlag leftMargin rightMargin [],
      .rule delistedBody inlineFlags railroadFlag leftMargin rightMargin [], rfl, rfl⟩

/-- Rules that are read in one way are read in both ways, and the ones are the others delisted. -/
theorem ReadsRule.both_of_forall {entries : Entries Json} {rules : List Rule}
    (known : ∀ entry ∈ entries, entry.1 ∈ names)
    (reads : List.Forall₂ (fun entry rule => ReadsRule names delist entry.1 entry.2 rule)
      entries rules) :
    ∃ kept delisted,
      List.Forall₂ (fun entry rule => ReadsRule names false entry.1 entry.2 rule) entries kept ∧
      List.Forall₂ (fun entry rule => ReadsRule names true entry.1 entry.2 rule)
        entries delisted ∧
      List.Forall₂ Delists kept delisted := by
  induction reads with
  | nil => exact ⟨[], [], .nil, .nil, .nil⟩
  | cons first _ inductionHypothesis =>
    obtain ⟨knownFirst, knownOthers⟩ := List.forall_mem_cons.mp known
    obtain ⟨kept, delisted, keptFirst, delistedFirst, delists⟩ := first.both knownFirst
    obtain ⟨keptOthers, delistedOthers, keptReads, delistedReads, others⟩ :=
      inductionHypothesis knownOthers
    exact ⟨kept :: keptOthers, delisted :: delistedOthers, .cons keptFirst keptReads,
      .cons delistedFirst delistedReads, .cons delists others⟩

end Validation

/-- A description that is accepted in one mode is accepted in both, and the rules of the one grammar
are those of the other one delisted. -/
theorem validate_both {description : Entries Json} {delist : Bool} {grammar : RuleSet}
    (valid : validate description delist = .ok grammar) :
    ∃ kept delisted, validate description false = .ok kept ∧
      validate description true = .ok delisted ∧
      List.Forall₂ Delists kept.rules delisted.rules := by
  have known : ∀ entry ∈ description, entry.1 ∈ description.names :=
    fun _ member => List.mem_map_of_mem member
  obtain ⟨kept, delisted, keptReads, delistedReads, delists⟩ :=
    Validation.ReadsRule.both_of_forall known (reads_of_validate valid)
  refine ⟨_, _, validate_of_reads keptReads, validate_of_reads delistedReads, ?_⟩
  exact List.forall₂_map_left_iff.mpr (List.forall₂_map_right_iff.mpr delists)

/-- A description that is accepted in one mode is accepted in both. Every rule has the same words
in both grammars, and the delisted one holds no list at any depth of any body. -/
theorem delisting_preserves_language {description : Entries Json} {delist : Bool}
    {grammar : RuleSet} (valid : validate description delist = .ok grammar) :
    ∃ kept delisted, validate description false = .ok kept ∧
      validate description true = .ok delisted ∧
      (∀ readAlias name, delisted.language readAlias name = kept.language readAlias name) ∧
      ∀ rule ∈ delisted.rules, ∀ item separator, Expr.list item separator ∉ rule.body.parts := by
  obtain ⟨kept, delisted, validKept, validDelisted, delists⟩ := validate_both valid
  refine ⟨kept, delisted, validKept, validDelisted, ?_, ?_⟩
  · intro readAlias name
    exact le_antisymm (RuleSet.language_delisted_le delists name)
      (RuleSet.language_kept_le delists name)
  · intro rule member item separator part
    have inside : .list item separator ∈ Expr.partsOfAll [rule.body] :=
      Expr.mem_partsOfAll.mpr ⟨rule.body, .head _, part⟩
    exact plain_of_validate validDelisted member _ inside

/-- Two rules that are lists of each other, with a list between the items of the first. -/
def mutualLists : Entries Json :=
  [("outer", .obj [("list", .str "inner"), ("separator", .obj [("list", .str "outer"),
      ("separator", .obj [("token", .str ";")])])]),
    ("inner", .obj [("choice", .arr [.obj [("terminal", .str "digit")],
      .obj [("list", .str "outer"), ("separator", .obj [("token", .str ",")])]])])]

/-- The grammar of two rules that are lists of each other. -/
def mutualListsKept : RuleSet :=
  ⟨[⟨"outer", .list "inner" (.list "outer" (.token ";")), none, true, none, none,
      ["outer", "inner"], ["outer", "inner"]⟩,
    ⟨"inner", .choice [.terminal "digit", .list "outer" (.token ",")], some false, true, none,
      none, ["outer"], ["outer"]⟩]⟩

/-- Lists of lists are delisted to rules with the same words. -/
theorem delisting_mutual_lists :
    validate mutualLists false = .ok mutualListsKept ∧
      ∃ kept delisted, validate mutualLists false = .ok kept ∧
        validate mutualLists true = .ok delisted ∧
        (∀ readAlias name, delisted.language readAlias name = kept.language readAlias name) ∧
        ∀ rule ∈ delisted.rules, ∀ item separator,
          Expr.list item separator ∉ rule.body.parts := by
  have valid : validate mutualLists false = .ok mutualListsKept := by cbv
  exact ⟨valid, delisting_preserves_language valid⟩

end GrammarView
