import GrammarView.Proofs.CollapsedListing

/-!
# Names on right-hand sides

Where the names stand that a collapsed listing prints on the right-hand side of a rule. Printing is
followed lexeme by lexeme, and every lexeme is kept together with the rules whose bodies it is
printed in, so what is said of a name is said of one place and not of all places that look alike. A
name is printed either because its rule is listed or because its place is inside the body of that
very rule.
-/

namespace GrammarView

/-- A lexeme that is printed, and the names of the rules that are being replaced around it, the last
that was entered first. -/
structure Occurrence where
  lexeme : Lexeme
  active : List String
  deriving DecidableEq, Repr

/-- Occurrences, in parentheses if need be. The parentheses are printed in the bodies of the given
rules. -/
def Occurrence.groupIf (active : List String) (needed : Bool) (occurrences : List Occurrence) :
    List Occurrence :=
  if needed then ⟨.opening, active⟩ :: occurrences ++ [⟨.closing, active⟩] else occurrences

namespace Expr

mutual

/-- What is printed of an expression with references replaced, in the bodies of the rules that are
active. The body in the place of a reference is printed in the body of one more rule. -/
def occurrences (body? : String → Option Expr) (replaceable active : List String)
    (whole operand : Bool) : Expr → List Occurrence
  | .reference name =>
    match body? name with
    | some body =>
      if name ∈ replaceable then
        occurrences body? (replaceable.erase name) (name :: active) whole operand body
      else [⟨.rule name, active⟩]
    | none => [⟨.rule name, active⟩]
  | .sequence items =>
    Occurrence.groupIf active operand
      ([⟨.gap, active⟩].intercalate (occurrencesOfAll body? replaceable active items))
  | .choice items =>
    Occurrence.groupIf active (!whole)
      ([⟨.bar, active⟩].intercalate (occurrencesOfAll body? replaceable active items))
  | .list item separator =>
    Occurrence.groupIf active operand
      (Occurrence.groupIf active true (⟨.rule item, active⟩ :: ⟨.gap, active⟩
          :: occurrences body? replaceable active false false separator)
        ++ [⟨.mark .zeroOrMore, active⟩, ⟨.gap, active⟩, ⟨.rule item, active⟩])
  | .quantified quantifier item =>
    Occurrence.groupIf active (item.inlined body? replaceable).isQuantified
        (occurrences body? replaceable active false true item)
      ++ [⟨.mark quantifier, active⟩]
  | expr => (expr.lexemes whole operand).map fun lexeme => ⟨lexeme, active⟩
termination_by expr => (replaceable.length, sizeOf expr)
decreasing_by
  · rename_i member
    have smaller := List.length_erase_of_mem member
    have positive := List.length_pos_of_mem member
    exact Prod.Lex.left _ _ (by omega)
  all_goals
    apply Prod.Lex.right
    simp only [Expr.sequence.sizeOf_spec, Expr.choice.sizeOf_spec, Expr.list.sizeOf_spec,
      Expr.quantified.sizeOf_spec]
    omega

/-- What is printed of each of several expressions. -/
def occurrencesOfAll (body? : String → Option Expr) (replaceable active : List String) :
    List Expr → List (List Occurrence)
  | [] => []
  | item :: rest =>
    occurrences body? replaceable active false false item
      :: occurrencesOfAll body? replaceable active rest
termination_by items => (replaceable.length, sizeOf items)
decreasing_by
  all_goals exact Prod.Lex.right _ (by simp <;> omega)

end

end Expr

namespace Occurrence

/-- What occurs in parentheses. -/
theorem map_groupIf (active : List String) (needed : Bool) (occurrences : List Occurrence) :
    (groupIf active needed occurrences).map lexeme
      = Lexeme.groupIf needed (occurrences.map lexeme) := by
  cases needed with
  | false => rfl
  | true => simp [groupIf, Lexeme.groupIf, Lexeme.group]

/-- The lexemes that occur are those of the expression with its references replaced. -/
theorem map_occurrences (body? : String → Option Expr) (replaceable active : List String)
    (whole operand : Bool) (expr : Expr) :
    (expr.occurrences body? replaceable active whole operand).map lexeme
      = (expr.inlined body? replaceable).lexemes whole operand := by
  apply Expr.occurrences.induct body?
    (fun replaceable active whole operand expr =>
      (expr.occurrences body? replaceable active whole operand).map lexeme
        = (expr.inlined body? replaceable).lexemes whole operand)
    (fun replaceable active items =>
      (Expr.occurrencesOfAll body? replaceable active items).map (List.map lexeme)
        = Expr.lexemesOfAll (Expr.inlinedAll body? replaceable items))
  case case1 =>
    intro replaceable active whole operand name body found member inductionHypothesis
    simpa only [Expr.occurrences, Expr.inlined, found, member, if_true] using inductionHypothesis
  case case2 =>
    intro replaceable active whole operand name body found absent
    simp only [Expr.occurrences, Expr.inlined, found, absent, if_false, Expr.lexemes,
      List.map_singleton]
  case case3 =>
    intro replaceable active whole operand name none
    simp only [Expr.occurrences, Expr.inlined, none, Expr.lexemes, List.map_singleton]
  case case4 | case5 =>
    intro replaceable active whole operand items inductionHypothesis
    simp only [Expr.occurrences, Expr.inlined, Expr.lexemes, map_groupIf, map_intercalate,
      List.map_cons, List.map_nil, inductionHypothesis]
  case case6 =>
    intro replaceable active whole operand item separator inductionHypothesis
    simp only [Expr.occurrences, Expr.inlined, Expr.lexemes, map_groupIf, List.map_append,
      List.map_cons, inductionHypothesis]
    rfl
  case case7 =>
    intro replaceable active whole operand quantifier item inductionHypothesis
    simp only [Expr.occurrences, Expr.inlined, Expr.lexemes, map_groupIf, List.map_append,
      inductionHypothesis]
    rfl
  case case8 =>
    intro replaceable active whole operand expr notReference notSequence notChoice notList
      notQuantified
    rw [Expr.occurrences, Expr.inlined, List.map_map]
    · exact List.map_id' _
    all_goals assumption
  case case9 =>
    intro replaceable active
    rw [Expr.occurrencesOfAll, Expr.inlinedAll]
    rfl
  case case10 =>
    intro replaceable active item rest first others
    rw [Expr.occurrencesOfAll, Expr.inlinedAll, List.map_cons, first, others]
    rfl

variable {active : List String} {occurrence between : Occurrence} {occurrences : List Occurrence}
  {lists : List (List Occurrence)}

/-- Parentheses hold no word but those inside them. -/
theorem mem_of_mem_groupIf {needed : Bool} (word : occurrence.lexeme.isWord = true)
    (member : occurrence ∈ groupIf active needed occurrences) : occurrence ∈ occurrences := by
  cases needed with
  | false => exact member
  | true =>
    have places : occurrence ∈ ⟨.opening, active⟩ :: occurrences ++ [⟨.closing, active⟩] := member
    simp only [List.mem_append, List.mem_cons, List.not_mem_nil, or_false] at places
    rcases places with (rfl | inside) | rfl
    · contradiction
    · exact inside
    · contradiction

/-- Joined lists hold no word but those that are joined. -/
theorem exists_mem_of_mem_joined (word : occurrence.lexeme.isWord = true)
    (mark : between.lexeme.isWord = false) (member : occurrence ∈ [between].intercalate lists) :
    ∃ list ∈ lists, occurrence ∈ list := by
  refine exists_mem_of_mem_intercalate ?_ member
  intro inside
  obtain rfl := List.mem_singleton.mp inside
  rw [mark] at word
  contradiction

end Occurrence

namespace Site

variable {grammar : RuleSet} {site inner : Site} {occurrence : Occurrence}

/-- Whether an occurrence is a word of a site or of one that is reached from it, in the bodies that
are being shown there. The name of a rule that collapses is printed only where the rule is being
replaced already. -/
def Meets (grammar : RuleSet) (site : Site) (occurrence : Occurrence) : Prop :=
  ∃ inner part, Reaches grammar site inner ∧ inner.active = occurrence.active ∧
    part ∈ inner.expr.parts ∧ occurrence.lexeme ∈ part.words ∧
    ∀ name, part = .reference name → grammar.collapses name = true → name ∈ occurrence.active

/-- A word that is met at a part is met at the whole. -/
theorem Meets.widen {active : List String} {item expr : Expr}
    (meets : Meets grammar ⟨active, item⟩ occurrence) (wider : item ∈ expr.parts) :
    Meets grammar ⟨active, expr⟩ occurrence := by
  obtain ⟨inner, part, reaches, here, inside, rest⟩ := meets
  obtain ⟨other, reached, same, within⟩ := reaches.widen inside wider
  exact ⟨other, part, reached, same.trans here, within, rest⟩

/-- A word that is met at a site is met wherever that site is entered from. -/
theorem Enters.meets (enters : Enters grammar site inner) (meets : Meets grammar inner occurrence) :
    Meets grammar site occurrence := by
  obtain ⟨last, part, reaches, rest⟩ := meets
  exact ⟨last, part, .head enters reaches, rest⟩

/-- A word of an expression that is no reference is met there. -/
theorem meets_own {active : List String} {expr : Expr} {lexeme : Lexeme}
    (word : lexeme ∈ expr.words) (notReference : ∀ name, expr ≠ .reference name) :
    Meets grammar ⟨active, expr⟩ ⟨lexeme, active⟩ :=
  ⟨_, expr, .refl, rfl, Expr.self_mem_parts expr, word, fun name same =>
    absurd same (notReference name)⟩

/-- A reference that is not replaced is met as a word. -/
theorem meets_kept {active : List String} {name : String}
    (stays : grammar.collapses name = true → name ∈ active) :
    Meets grammar ⟨active, .reference name⟩ ⟨.rule name, active⟩ := by
  refine ⟨_, .reference name, .refl, rfl, .head _, .head _, ?_⟩
  rintro other ⟨⟩
  exact stays

end Site

/-- Every word that is printed of an expression is met at a site that is reached from it. -/
theorem meets_of_mem_occurrences {grammar : RuleSet} {active replaceable : List String}
    (spare : grammar.Spare active replaceable) {expr : Expr} {whole operand : Bool}
    {occurrence : Occurrence} (word : occurrence.lexeme.isWord = true)
    (member : occurrence
      ∈ expr.occurrences (grammar.shownBody? true) replaceable active whole operand) :
    Site.Meets grammar ⟨active, expr⟩ occurrence := by
  revert spare member
  apply Expr.occurrences.induct (grammar.shownBody? true)
    (fun replaceable active whole operand expr => grammar.Spare active replaceable →
      occurrence ∈ expr.occurrences (grammar.shownBody? true) replaceable active whole operand →
        Site.Meets grammar ⟨active, expr⟩ occurrence)
    (fun replaceable active items => grammar.Spare active replaceable →
      ∀ printed ∈ Expr.occurrencesOfAll (grammar.shownBody? true) replaceable active items,
        occurrence ∈ printed → ∃ item ∈ items, Site.Meets grammar ⟨active, item⟩ occurrence)
  case case1 =>
    intro replaceable active whole operand name body found known inductionHypothesis spare member
    simp only [Expr.occurrences, found, known, if_true] at member
    obtain ⟨-, collapses, rule, ruleFound, rfl⟩ := RuleSet.shownBody?_eq_some.mp found
    have idle := (spare.idle name (RuleSet.mem_names_of_get? ruleFound)).mp known
    have enters : Site.Enters grammar ⟨active, .reference name⟩ ⟨name :: active, rule.body⟩ :=
      .body (.head _) collapses ruleFound idle
    exact enters.meets (inductionHypothesis (spare.erase name) member)
  case case2 =>
    intro replaceable active whole operand name body found absent spare member
    simp only [Expr.occurrences, found, absent, if_false] at member
    obtain rfl := List.mem_singleton.mp member
    obtain ⟨-, -, rule, ruleFound, -⟩ := RuleSet.shownBody?_eq_some.mp found
    have known := RuleSet.mem_names_of_get? ruleFound
    exact Site.meets_kept fun _ => not_not.mp (mt (spare.idle name known).mpr absent)
  case case3 =>
    intro replaceable active whole operand name none spare member
    simp only [Expr.occurrences, none] at member
    obtain rfl := List.mem_singleton.mp member
    exact Site.meets_kept fun collapses =>
      absurd ⟨rfl, collapses⟩ (RuleSet.shownBody?_eq_none.mp none)
  case case4 | case5 =>
    intro replaceable active whole operand items inductionHypothesis spare member
    rw [Expr.occurrences] at member
    obtain ⟨printed, listed, inside⟩ := Occurrence.exists_mem_of_mem_joined word rfl
      (Occurrence.mem_of_mem_groupIf word member)
    obtain ⟨item, itemMember, meets⟩ := inductionHypothesis spare printed listed inside
    exact meets.widen (.tail _ (Expr.mem_partsOfAll_of_mem itemMember))
  case case6 =>
    intro replaceable active whole operand item separator inductionHypothesis spare member
    rw [Expr.occurrences] at member
    have own : Site.Meets grammar ⟨active, .list item separator⟩ ⟨.rule item, active⟩ :=
      Site.meets_own (.head _) nofun
    rcases List.mem_append.mp (Occurrence.mem_of_mem_groupIf word member) with repeated | last
    · have inside := Occurrence.mem_of_mem_groupIf word repeated
      simp only [List.mem_cons] at inside
      rcases inside with rfl | rfl | separated
      · exact own
      · contradiction
      · exact (inductionHypothesis spare separated).widen (.tail _ (Expr.self_mem_parts _))
    · simp only [List.mem_cons, List.not_mem_nil, or_false] at last
      rcases last with rfl | rfl | rfl
      · contradiction
      · contradiction
      · exact own
  case case7 =>
    intro replaceable active whole operand quantifier item inductionHypothesis spare member
    rw [Expr.occurrences] at member
    rcases List.mem_append.mp member with inside | mark
    · have meets := inductionHypothesis spare (Occurrence.mem_of_mem_groupIf word inside)
      exact meets.widen (.tail _ (Expr.self_mem_parts _))
    · obtain rfl := List.mem_singleton.mp mark
      contradiction
  case case8 =>
    intro replaceable active whole operand expr notReference notSequence notChoice notList
      notQuantified spare member
    rw [Expr.occurrences] at member
    · obtain ⟨lexeme, printed, rfl⟩ := List.mem_map.mp member
      obtain ⟨part, inside, own⟩ := Expr.exists_part_of_mem_lexemes word printed
      have leaf : expr.isLeaf = true := by
        cases expr with
        | reference name => exact (notReference name rfl).elim
        | sequence items => exact (notSequence items rfl).elim
        | choice items => exact (notChoice items rfl).elim
        | list item separator => exact (notList item separator rfl).elim
        | quantified quantifier item => exact (notQuantified quantifier item rfl).elim
        | _ => rfl
      rw [Expr.parts_of_isLeaf leaf] at inside
      obtain rfl := List.mem_singleton.mp inside
      exact Site.meets_own own notReference
    all_goals assumption
  case case9 =>
    intro replaceable active spare printed listed
    rw [Expr.occurrencesOfAll] at listed
    contradiction
  case case10 =>
    intro replaceable active item rest first others spare printed listed inside
    rw [Expr.occurrencesOfAll] at listed
    rcases List.mem_cons.mp listed with rfl | later
    · exact ⟨item, .head _, first spare inside⟩
    · obtain ⟨other, otherMember, meets⟩ := others spare printed later inside
      exact ⟨other, .tail _ otherMember, meets⟩

namespace Html

/-- The alternatives of a rule in a collapsed listing, every lexeme with the rules whose bodies it
is printed in. -/
def occurrences (grammar : RuleSet) (rule : Rule) : List (List Occurrence) :=
  let printed (whole : Bool) (expr : Expr) : List Occurrence :=
    expr.occurrences (grammar.shownBody? true) (grammar.replaceable rule) [rule.name] whole false
  match rule.body with
  | .choice items => items.map (printed false)
  | .list item separator =>
    let item := printed false (.reference item)
    [item, ⟨.rule rule.name, [rule.name]⟩ :: ⟨.gap, [rule.name]⟩ :: printed false separator
      ++ ⟨.gap, [rule.name]⟩ :: item]
  | body => [printed true body]

/-- The right-hand side of a rule in a collapsed listing, every tree with the rules whose bodies it
is printed in. -/
def rightSideWithin (grammar : RuleSet) (rule : Rule) : List (Markup × List String) :=
  [(Markup.written (Production.continuation (rule.name.length + 2)), [rule.name])].intercalate
    ((occurrences grammar rule).map fun alternative =>
      alternative.map fun occurrence => (spell occurrence.lexeme, occurrence.active))

variable {grammar : RuleSet} {rule : Rule}

/-- The lexemes that occur in the alternatives of a rule are those of its production. -/
theorem map_occurrences : (occurrences grammar rule).map (List.map Occurrence.lexeme)
    = (production grammar true rule).alternatives := by
  unfold occurrences production RuleSet.production
  cases rule.body with
  | choice items =>
    simp only [List.map_map, List.map_inj_left]
    exact fun item _ => Occurrence.map_occurrences _ _ _ _ _ item
  | list item separator =>
    simp only [List.map_cons, List.map_nil, List.map_append, Occurrence.map_occurrences]
    rfl
  | _ =>
    simp only [List.map_cons, List.map_nil, Occurrence.map_occurrences]
    rfl

/-- The trees of a right-hand side are those that are printed in the bodies of rules, in order. -/
theorem map_rightSideWithin :
    (rightSideWithin grammar rule).map Prod.fst = rightSide (production grammar true rule) := by
  have trees : (occurrences grammar rule).map (List.map (spell ∘ Occurrence.lexeme))
      = (production grammar true rule).alternatives.map (List.map spell) := by
    rw [← map_occurrences, List.map_map]
    exact List.map_congr_left fun alternative _ => (List.map_map).symm
  rw [rightSideWithin, map_intercalate, List.map_map, rightSide, ← trees]
  refine congrArg _ (List.map_congr_left fun alternative _ => ?_)
  exact List.map_map

/-- What is printed inside the bodies of rules is printed on the right-hand side. -/
theorem getElem?_rightSide {place : Nat} {tree : Markup} {active : List String}
    (within : (rightSideWithin grammar rule)[place]? = some (tree, active)) :
    (rightSide (production grammar true rule))[place]? = some tree := by
  rw [← map_rightSideWithin, List.getElem?_map, within, Option.map_some]

/-- Only a name of a rule is spelled as such. -/
theorem eq_rule_of_spell {lexeme : Lexeme} {name : String} (same : spell lexeme = spanRule name) :
    lexeme = .rule name := by
  cases lexeme with
  | rule other => simpa [spell, spanRule, span] using same
  | token | terminal => simp [spell, spanToken, spanTerminal, spanRule, span] at same
  | _ => cases same

/-- A name on a right-hand side occurs in one of the alternatives. -/
theorem exists_occurrence_of_span {name : String} {active : List String}
    (printed : (spanRule name, active) ∈ rightSideWithin grammar rule) :
    ∃ alternative ∈ occurrences grammar rule, ⟨.rule name, active⟩ ∈ alternative := by
  obtain ⟨trees, listed, inside⟩ :=
    exists_mem_of_mem_intercalate (by simp [spanRule, span]) printed
  obtain ⟨alternative, offered, rfl⟩ := List.mem_map.mp listed
  obtain ⟨⟨lexeme, around⟩, member, same⟩ := List.mem_map.mp inside
  obtain ⟨spelled, rfl⟩ := Prod.mk.inj same
  obtain rfl := eq_rule_of_spell spelled
  exact ⟨alternative, offered, member⟩

/-- Every word of an alternative is met at a site that is reached from the body of the rule. -/
theorem meets_of_mem_alternative (distinct : grammar.names.Nodup)
    (notList : ∀ item separator, rule.body ≠ .list item separator) {alternative : List Occurrence}
    (offered : alternative ∈ occurrences grammar rule) {occurrence : Occurrence}
    (word : occurrence.lexeme.isWord = true) (member : occurrence ∈ alternative) :
    Site.Meets grammar (.ofRule rule) occurrence := by
  have spare := RuleSet.spare_replaceable distinct rule
  unfold occurrences at offered
  unfold Site.ofRule
  cases form : rule.body with
  | choice items =>
    rw [form] at offered
    obtain ⟨item, listed, rfl⟩ := List.mem_map.mp offered
    have meets := meets_of_mem_occurrences spare word member
    exact meets.widen (.tail _ (Expr.mem_partsOfAll_of_mem listed))
  | list item separator => exact (notList item separator form).elim
  | _ =>
    rw [form] at offered
    obtain rfl := List.mem_singleton.mp offered
    exact meets_of_mem_occurrences spare word member

end Html

/-- A rule collapses when it is used elsewhere, and is marked for it or used by one rule only. -/
theorem RuleSet.collapses_iff {grammar : RuleSet} {name : String} {rule : Rule}
    (found : grammar.get? name = some rule) :
    grammar.collapses name = true ↔ rule.isUsedElsewhere = true ∧
      (rule.inline = some true ∨ rule.inline = none ∧ ∃ only, rule.referrers = [only]) := by
  rw [collapses, found]
  cases mark : rule.inline <;> simp [mark, List.length_eq_one_iff]

section Names

variable {description : Entries Json} {grammar : RuleSet} {rule target : Rule} {outer inner : Site}
  {name : String}

/-- A rule to which its own body leads back while it is being shown is marked for being shown in the
place of its references. -/
theorem inline_of_again (distinct : grammar.names.Nodup)
    (valid : validate description true = .ok grammar) (member : rule ∈ grammar.rules)
    (collapses : grammar.collapses name = true) (found : grammar.get? name = some target)
    (before : Site.Reaches grammar (.ofRule rule) outer)
    (enters : Site.Enters grammar outer ⟨name :: outer.active, target.body⟩)
    (further : Site.Reaches grammar ⟨name :: outer.active, target.body⟩ inner)
    (again : .reference name ∈ inner.expr.parts) : target.inline = some true := by
  obtain ⟨used, marked | ⟨-, only, referrers⟩⟩ := (RuleSet.collapses_iff found).mp collapses
  · exact marked
  have indexed : grammar.Indexed := indexed_of_validate valid
  obtain ⟨targetMember, rfl⟩ := RuleSet.get?_eq_some found
  -- Otherwise the only rule that refers to it would be entered again inside itself.
  have refers {owner : String} (edge : (owner, target.name) ∈ grammar.edges) : owner = only := by
    simpa [referrers] using (indexed.mem_kept targetMember).mpr edge
  obtain ⟨first, ownsOuter, -⟩ := before.ownedBy distinct valid member
  have whole : Site.Reaches grammar (.ofRule rule) inner := before.trans (.head enters further)
  obtain ⟨last, ownsInner, -⟩ := whole.ownedBy distinct valid member
  obtain ⟨entered, met, ⟨-, ⟨rest, active⟩, -⟩⟩ := enters.ownedBy ownsOuter.distinct
  obtain ⟨rfl, -⟩ := List.cons_eq_cons.mp active
  obtain rfl := refers (ownsOuter.edge distinct valid met)
  obtain rfl := refers (ownsInner.edge distinct valid again)
  obtain ⟨other, different, edge⟩ := (indexed.isUsedElsewhere_iff targetMember).mp used
  have own : target.name = last := ownsOuter.eq_of_suffix ownsInner further.suffix
  exact absurd (refers edge) (own ▸ different)

/-- Without aliases and labels a word that is the name of a rule is met as a reference. -/
theorem reference_of_word (valid : validate description true = .ok grammar)
    (labelFree : grammar.LabelFree) (aliasFree : grammar.AliasFree) (member : rule ∈ grammar.rules)
    {part : Expr} (inside : part ∈ rule.body.parts) (word : .rule name ∈ part.words) :
    part = .reference name := by
  rw [← Expr.partsOfAll_singleton] at inside
  have plain := plain_of_validate valid member part inside
  cases part with
  | reference other => simpa [Expr.words, eq_comm] using word
  | aliased text => exact absurd rfl (aliasFree rule member _ inside text)
  | label text => exact absurd rfl (labelFree rule member _ inside text)
  | list => exact plain.elim
  | _ => simp [Expr.words] at word

end Names

/-- Wherever a collapsed listing prints a name on a right-hand side, it is the name of a listed rule,
or of a rule that is marked for being shown in the place of its references, and then the place is
inside the body of that rule, which is being shown around it. -/
theorem names_on_right_sides {description : Entries Json} {grammar : RuleSet}
    (distinct : description.Distinct) (valid : validate description true = .ok grammar)
    (labelFree : grammar.LabelFree) (aliasFree : grammar.AliasFree) {rule : Rule}
    (listed : rule ∈ Html.listed grammar true false) {place : Nat} {name : String}
    (printed :
      (Html.rightSide (Html.production grammar true rule))[place]? = some (Html.spanRule name)) :
    (Html.rightSideWithin grammar rule).map Prod.fst
        = Html.rightSide (Html.production grammar true rule) ∧
      ∃ active target,
        (Html.rightSideWithin grammar rule)[place]? = some (Html.spanRule name, active) ∧
          grammar.get? name = some target ∧
          (target ∈ Html.listed grammar true false ∨
            target.inline = some true ∧ name ∈ active ∧ ∃ outer inner,
              Site.Reaches grammar (.ofRule rule) outer ∧
                Site.Enters grammar outer ⟨name :: outer.active, target.body⟩ ∧
                Site.Reaches grammar ⟨name :: outer.active, target.body⟩ inner ∧
                inner.active = active ∧ .reference name ∈ inner.expr.parts) := by
  have differ : grammar.names.Nodup := names_of_validate valid ▸ distinct
  obtain ⟨member, stays⟩ := Html.mem_listed.mp listed
  rw [← Html.map_rightSideWithin, List.getElem?_map, Option.map_eq_some_iff] at printed
  obtain ⟨⟨tree, active⟩, within, rfl⟩ := printed
  obtain ⟨alternative, offered, occurs⟩ :=
    Html.exists_occurrence_of_span (List.mem_of_getElem? within)
  obtain ⟨inner, part, reaches, here, inside, word, cut⟩ :=
    Html.meets_of_mem_alternative differ (notList_of_validate valid member) offered rfl occurs
  obtain ⟨last, owned, -⟩ := reaches.ownedBy differ valid member
  obtain ⟨owner, ownerFound, same⟩ := owned.body
  rw [same] at inside
  obtain rfl := reference_of_word valid labelFree aliasFree
    (RuleSet.get?_eq_some ownerFound).1 inside word
  refine ⟨Html.map_rightSideWithin, active, ?_⟩
  by_cases collapses : grammar.collapses name = true
  case neg =>
    have known : name ∈ grammar.names := RuleSet.known_of_validate valid
      (RuleSet.get?_eq_some ownerFound).1 name (Expr.mem_targets_of_reference inside)
    obtain ⟨target, targetMember, rfl⟩ := List.mem_map.mp known
    exact ⟨target, within, RuleSet.get?_of_mem differ targetMember,
      .inl (Html.mem_listed.mpr ⟨targetMember, collapses⟩)⟩
  case pos =>
    have fresh : name ∉ (Site.ofRule rule).active := by
      intro own
      obtain rfl := List.mem_singleton.mp own
      exact stays collapses
    have around : name ∈ active := cut name rfl collapses
    obtain ⟨outer, target, before, found, enters, further⟩ := reaches.entered (here ▸ around) fresh
    rw [← same] at inside
    have marked : target.inline = some true :=
      inline_of_again differ valid member collapses found before enters further inside
    exact ⟨target, within, found, .inr
      ⟨marked, around, outer, inner, before, enters, further, here, inside⟩⟩

/-- A rule that uses another one, which is marked for being shown there and may hold itself. -/
def cutOff : Entries Json :=
  [("r", .obj [("sequence", .arr [.obj [("token", .str "x")], .str "s"])]),
    ("s", .obj [("sequence", .arr [.obj [("token", .str "y")], .obj [("zeroOrOne", .str "s")]]),
      ("inline", .bool true)])]

/-- The rule that uses the one that may hold itself. -/
def cutOffRule : Rule :=
  ⟨"r", .sequence [.token "x", .reference "s"], none, true, none, none, ["s"], []⟩

/-- The rule that may hold itself. -/
def cutOffTarget : Rule :=
  ⟨"s", .sequence [.token "y", .quantified .zeroOrOne (.reference "s")], some true, true, none,
    none, ["s"], ["r", "s"]⟩

/-- The grammar of the rule that may hold itself and the one that uses it. -/
def cutOffGrammar : RuleSet :=
  ⟨[cutOffRule, cutOffTarget]⟩

/-- The rule that may hold itself is not listed, and its name is printed where its body is shown. -/
theorem cutOff_listing :
    validate cutOff true = .ok cutOffGrammar ∧ cutOffGrammar.LabelFree ∧ cutOffGrammar.AliasFree ∧
      Html.listed cutOffGrammar true false = [cutOffRule] ∧
      (Html.rightSideWithin cutOffGrammar cutOffRule)[4]?
        = some (Html.spanRule "s", ["s", "r"]) := by
  have valid : validate cutOff true = .ok cutOffGrammar := by cbv
  have labelFree : cutOffGrammar.LabelFree := by
    simp [RuleSet.LabelFree, Expr.Throughout, Expr.NoLabel, cutOffGrammar, cutOffRule, cutOffTarget,
      Expr.partsOfAll, Expr.parts]
  have aliasFree : cutOffGrammar.AliasFree := by
    simp [RuleSet.AliasFree, Expr.Throughout, Expr.NoAlias, cutOffGrammar, cutOffRule, cutOffTarget,
      Expr.partsOfAll, Expr.parts]
  have printed : Html.occurrences cutOffGrammar cutOffRule
      = [[⟨.token "x", ["r"]⟩, ⟨.gap, ["r"]⟩, ⟨.token "y", ["s", "r"]⟩, ⟨.gap, ["s", "r"]⟩,
        ⟨.rule "s", ["s", "r"]⟩, ⟨.mark .zeroOrOne, ["s", "r"]⟩]] := by cbv
  refine ⟨valid, labelFree, aliasFree, rfl, ?_⟩
  rw [Html.rightSideWithin, printed, List.map_singleton, List.intercalate_singleton]
  rfl

/-- A name is printed although no rule of that name is listed. -/
theorem cut_off_name_not_listed :
    cutOff.Distinct ∧ validate cutOff true = .ok cutOffGrammar ∧ cutOffGrammar.LabelFree ∧
      cutOffGrammar.AliasFree ∧
      ∃ rule ∈ Html.listed cutOffGrammar true false,
        Html.spanRule "s" ∈ Html.rightSide (Html.production cutOffGrammar true rule) ∧
          ∀ target ∈ Html.listed cutOffGrammar true false, target.name ≠ "s" := by
  obtain ⟨valid, labelFree, aliasFree, listed, printed⟩ := cutOff_listing
  have distinct : cutOff.Distinct := by simp [Entries.Distinct, Entries.names, cutOff]
  refine ⟨distinct, valid, labelFree, aliasFree, cutOffRule, listed ▸ .head _,
    List.mem_of_getElem? (Html.getElem?_rightSide printed), ?_⟩
  rw [listed]
  exact List.forall_mem_singleton.mpr (by decide)

/-- The name of the rule that is not listed is printed inside the body of that rule. -/
theorem cut_off_name_inside_body :
    cutOff.Distinct ∧ validate cutOff true = .ok cutOffGrammar ∧ cutOffGrammar.LabelFree ∧
      cutOffGrammar.AliasFree ∧ cutOffRule ∈ Html.listed cutOffGrammar true false ∧
      (Html.rightSide (Html.production cutOffGrammar true cutOffRule))[4]?
        = some (Html.spanRule "s") ∧
      (Html.rightSideWithin cutOffGrammar cutOffRule)[4]?
        = some (Html.spanRule "s", ["s", "r"]) ∧
      ∃ outer inner, Site.Reaches cutOffGrammar (.ofRule cutOffRule) outer ∧
        Site.Enters cutOffGrammar outer ⟨"s" :: outer.active, cutOffTarget.body⟩ ∧
        Site.Reaches cutOffGrammar ⟨"s" :: outer.active, cutOffTarget.body⟩ inner ∧
        inner.active = ["s", "r"] ∧ .reference "s" ∈ inner.expr.parts := by
  obtain ⟨valid, labelFree, aliasFree, only, within⟩ := cutOff_listing
  have distinct : cutOff.Distinct := by simp [Entries.Distinct, Entries.names, cutOff]
  have listed : cutOffRule ∈ Html.listed cutOffGrammar true false := only ▸ .head _
  have printed := Html.getElem?_rightSide within
  obtain ⟨-, active, target, place, found, own | ⟨-, -, inside⟩⟩ :=
    names_on_right_sides distinct valid labelFree aliasFree listed printed
  · rw [only] at own
    obtain rfl := List.mem_singleton.mp own
    exact absurd (RuleSet.get?_eq_some found).2 (by decide)
  · cases found
    obtain rfl : active = ["s", "r"] := by simpa [within, eq_comm] using place
    exact ⟨distinct, valid, labelFree, aliasFree, listed, printed, within, inside⟩

end GrammarView
