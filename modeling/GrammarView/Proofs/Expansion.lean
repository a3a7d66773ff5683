import GrammarView.Proofs.ReferenceGraph
import GrammarView.Proofs.Replacement

/-!
# Bodies in the place of references

Where a collapsed listing comes to while it replaces references. Each replacement enters the body of
another rule, and the names of the rules that were entered are kept, so that none is entered again
inside itself. Replacing follows the references of the grammar, and what is printed of a body that
was entered stands inside what is printed of the expression in which replacing began.
-/

namespace GrammarView

/-- A part of a part is a part of the whole. -/
theorem Expr.mem_parts_trans {part middle expr : Expr} (inside : part ∈ middle.parts)
    (within : middle ∈ expr.parts) : part ∈ expr.parts := by
  induction expr using Expr.inductionOn with
  | token | terminal | aliased | label | tokens | reference | foreign =>
    obtain rfl := List.mem_singleton.mp within
    exact inside
  | sequence items inductionHypothesis =>
    rcases List.mem_cons.mp within with rfl | deeper
    · exact inside
    · obtain ⟨item, listed, found⟩ := mem_partsOfAll.mp deeper
      have further := inductionHypothesis item listed found
      exact .tail _ (mem_partsOfAll.mpr ⟨item, listed, further⟩)
  | choice items inductionHypothesis =>
    rcases List.mem_cons.mp within with rfl | deeper
    · exact inside
    · obtain ⟨item, listed, found⟩ := mem_partsOfAll.mp deeper
      have further := inductionHypothesis item listed found
      exact .tail _ (mem_partsOfAll.mpr ⟨item, listed, further⟩)
  | list item separator inductionHypothesis =>
    rcases List.mem_cons.mp within with rfl | deeper
    · exact inside
    · exact .tail _ (inductionHypothesis deeper)
  | quantified quantifier item inductionHypothesis =>
    rcases List.mem_cons.mp within with rfl | deeper
    · exact inside
    · exact .tail _ (inductionHypothesis deeper)

/-- In a delisted grammar there is an edge for every reference that stands in a body as such. -/
theorem RuleSet.mem_edges_iff_reference {description : Entries Json} {grammar : RuleSet}
    (distinct : grammar.names.Nodup) (valid : validate description true = .ok grammar)
    {name target : String} :
    (name, target) ∈ grammar.edges ↔
      ∃ rule, grammar.get? name = some rule ∧ .reference target ∈ rule.body.parts := by
  rw [mem_edges]
  constructor
  · rintro ⟨rule, member, rfl, recorded⟩
    refine ⟨rule, get?_of_mem distinct member, ?_⟩
    have inside := ((recorded_of_validate valid member).2 target).mp recorded
    obtain ⟨part, within, refers⟩ := List.mem_filterMap.mp inside
    have plain := plain_of_validate valid member part (Expr.partsOfAll_singleton _ ▸ within)
    cases part with
    | reference name =>
      cases refers
      exact within
    | list => exact plain.elim
    | _ => contradiction
  · rintro ⟨rule, found, inside⟩
    obtain ⟨member, same⟩ := get?_eq_some found
    have recorded := (recorded_of_validate valid member).2 target
    exact ⟨rule, member, same, recorded.mpr (Expr.mem_targets_of_reference inside)⟩

/-- An expression that is being listed, and the names of the rules that are being replaced around
it, the last that was entered first. -/
structure Site where
  active : List String
  expr : Expr

namespace Site

/-- The body of a rule as it is listed under its own name. -/
def ofRule (rule : Rule) : Site :=
  ⟨[rule.name], rule.body⟩

/-- A reference that collapses is replaced by the body of its rule, unless that is being done
already. -/
inductive Enters (grammar : RuleSet) (site : Site) : Site → Prop where
  | body {name : String} {rule : Rule} (met : .reference name ∈ site.expr.parts)
      (collapses : grammar.collapses name = true) (found : grammar.get? name = some rule)
      (idle : name ∉ site.active) : Enters grammar site ⟨name :: site.active, rule.body⟩

/-- A site is reached from another one through any number of replacements. -/
def Reaches (grammar : RuleSet) : Site → Site → Prop :=
  Relation.ReflTransGen (Enters grammar)

variable {grammar : RuleSet} {site inner : Site} {name : String}

/-- Whether a site is the body of a rule, or a part of it, where that rule was entered last and no
rule inside itself. -/
structure OwnedBy (grammar : RuleSet) (site : Site) (name : String) : Prop where
  distinct : site.active.Nodup
  entered : ∃ rest, site.active = name :: rest
  body : ∃ rule, grammar.get? name = some rule ∧ site.expr = rule.body

/-- The body of a rule that is found is owned by it. -/
theorem ownedBy_ofRule {rule : Rule} (found : grammar.get? rule.name = some rule) :
    (ofRule rule).OwnedBy grammar rule.name where
  distinct := List.nodup_singleton rule.name
  entered := ⟨[], rfl⟩
  body := ⟨rule, found, rfl⟩

/-- What is referred to at a site is referred to by its owner. -/
theorem OwnedBy.edge {description : Entries Json} (names : grammar.names.Nodup)
    (valid : validate description true = .ok grammar) (owned : site.OwnedBy grammar name)
    {target : String} (met : .reference target ∈ site.expr.parts) :
    (name, target) ∈ grammar.edges := by
  obtain ⟨rule, found, body⟩ := owned.body
  exact (RuleSet.mem_edges_iff_reference names valid).mpr ⟨rule, found, body ▸ met⟩

/-- A rule that owns a site and another one further inside was entered between them. -/
theorem OwnedBy.eq_of_suffix {owner : String} (owned : site.OwnedBy grammar owner)
    (further : inner.OwnedBy grammar owner) (suffix : name :: site.active <:+ inner.active) :
    name = owner := by
  obtain ⟨rest, active⟩ := owned.entered
  obtain ⟨others, activeInner⟩ := further.entered
  have once := further.distinct
  rw [activeInner] at once suffix
  rcases List.suffix_cons_iff.mp suffix with same | deeper
  · exact (List.cons_eq_cons.mp same).1
  · have twice : owner ∈ others := deeper.subset (active ▸ .tail _ (.head _))
    exact absurd twice (List.nodup_cons.mp once).1

/-- A site that is entered is owned by the rule whose reference was replaced. -/
theorem Enters.ownedBy (enters : Enters grammar site inner) (distinct : site.active.Nodup) :
    ∃ name, .reference name ∈ site.expr.parts ∧ inner.OwnedBy grammar name := by
  obtain @⟨name, rule, met, -, found, idle⟩ := enters
  exact ⟨name, met, List.nodup_cons.mpr ⟨idle, distinct⟩, ⟨site.active, rfl⟩, rule, found, rfl⟩

/-- Replacing follows the references: a rule leads to the owners of all sites that are reached from
its body. -/
theorem Reaches.ownedBy {description : Entries Json} (names : grammar.names.Nodup)
    (valid : validate description true = .ok grammar) {rule : Rule} (member : rule ∈ grammar.rules)
    (reaches : Reaches grammar (.ofRule rule) inner) :
    ∃ last, inner.OwnedBy grammar last ∧ grammar.Leads rule.name last := by
  induction reaches with
  | refl => exact ⟨rule.name, ownedBy_ofRule (RuleSet.get?_of_mem names member), .refl⟩
  | tail _ enters inductionHypothesis =>
    obtain ⟨middle, owned, leads⟩ := inductionHypothesis
    obtain ⟨last, met, ownedLast⟩ := enters.ownedBy owned.distinct
    exact ⟨last, ownedLast, leads.tail (owned.edge names valid met)⟩

/-- The rules that are being replaced at a site are being replaced at all sites that are reached
from it. -/
theorem Reaches.suffix (reaches : Reaches grammar site inner) : site.active <:+ inner.active := by
  induction reaches with
  | refl => exact List.suffix_rfl
  | tail _ enters inductionHypothesis =>
    cases enters
    exact inductionHypothesis.trans (List.suffix_cons _ _)

/-- A rule that is being replaced was entered from a reference, on the way to where it is. -/
theorem Reaches.entered (reaches : Reaches grammar site inner) (member : name ∈ inner.active)
    (idle : name ∉ site.active) :
    ∃ outer rule, Reaches grammar site outer ∧ grammar.get? name = some rule ∧
      Enters grammar outer ⟨name :: outer.active, rule.body⟩ ∧
      Reaches grammar ⟨name :: outer.active, rule.body⟩ inner := by
  induction reaches with
  | refl => exact absurd member idle
  | @tail outer _ before enters inductionHypothesis =>
    obtain @⟨last, rule, met, collapses, found, fresh⟩ := enters
    have next : Enters grammar outer ⟨last :: outer.active, rule.body⟩ :=
      .body met collapses found fresh
    rcases List.mem_cons.mp member with rfl | earlier
    · exact ⟨outer, rule, before, found, next, .refl⟩
    · obtain ⟨first, body, reached, foundFirst, begins, onward⟩ := inductionHypothesis earlier
      exact ⟨first, body, reached, foundFirst, begins, onward.tail next⟩

/-- What is met inside a site is met inside any expression of which it is a part. -/
theorem Reaches.widen {active : List String} {part item expr : Expr}
    (reaches : Reaches grammar ⟨active, item⟩ inner) (inside : part ∈ inner.expr.parts)
    (wider : item ∈ expr.parts) :
    ∃ other, Reaches grammar ⟨active, expr⟩ other ∧ other.active = inner.active ∧
      part ∈ other.expr.parts := by
  rcases reaches.cases_head with rfl | ⟨next, enters, further⟩
  · exact ⟨⟨active, expr⟩, .refl, rfl, Expr.mem_parts_trans inside wider⟩
  · obtain @⟨name, rule, met, collapses, found, idle⟩ := enters
    have first : Enters grammar ⟨active, expr⟩ ⟨name :: active, rule.body⟩ :=
      .body (Expr.mem_parts_trans met wider) collapses found idle
    exact ⟨inner, .head first further, rfl, inside⟩

end Site

section Shown

variable {grammar : RuleSet} {collapsed : Bool} {active : List String} {exprs shown : List Expr}

/-- What a listing shows for expressions holds what it shows for each of their parts. -/
theorem Shows.part (shows : Shows grammar collapsed active exprs shown) {part : Expr}
    (inside : part ∈ Expr.partsOfAll exprs) :
    ∃ within ∈ Expr.partsOfAll shown, Shows grammar collapsed active [part] [within] := by
  have single {expr : Expr} : expr ∈ Expr.partsOfAll [expr] := Expr.self_mem_partsOfAll expr
  induction shows with
  | nil => contradiction
  | cons first remaining firstHypothesis remainingHypothesis =>
    rw [Expr.partsOfAll, ← Expr.partsOfAll_singleton] at inside ⊢
    rcases List.mem_append.mp inside with here | later
    · obtain ⟨within, found, shows⟩ := firstHypothesis here
      exact ⟨within, List.mem_append_left _ found, shows⟩
    · obtain ⟨within, found, shows⟩ := remainingHypothesis later
      exact ⟨within, List.mem_append_right _ found, shows⟩
  | body collapsing collapses found idle body =>
    obtain rfl := List.mem_singleton.mp inside
    exact ⟨_, single, .body collapsing collapses found idle body⟩
  | kept stays =>
    obtain rfl := List.mem_singleton.mp inside
    exact ⟨_, single, .kept stays⟩
  | sequence parts inductionHypothesis =>
    rw [Expr.partsOfAll_singleton] at inside
    rcases List.mem_cons.mp inside with rfl | deeper
    · exact ⟨_, single, .sequence parts⟩
    · obtain ⟨within, found, shows⟩ := inductionHypothesis deeper
      exact ⟨within, Expr.partsOfAll_singleton _ ▸ .tail _ found, shows⟩
  | choice parts inductionHypothesis =>
    rw [Expr.partsOfAll_singleton] at inside
    rcases List.mem_cons.mp inside with rfl | deeper
    · exact ⟨_, single, .choice parts⟩
    · obtain ⟨within, found, shows⟩ := inductionHypothesis deeper
      exact ⟨within, Expr.partsOfAll_singleton _ ▸ .tail _ found, shows⟩
  | list part inductionHypothesis =>
    simp only [Expr.partsOfAll_singleton] at inside inductionHypothesis
    rcases List.mem_cons.mp inside with rfl | deeper
    · exact ⟨_, single, .list part⟩
    · obtain ⟨within, found, shows⟩ := inductionHypothesis deeper
      exact ⟨within, Expr.partsOfAll_singleton _ ▸ .tail _ found, shows⟩
  | quantified part inductionHypothesis =>
    simp only [Expr.partsOfAll_singleton] at inside inductionHypothesis
    rcases List.mem_cons.mp inside with rfl | deeper
    · exact ⟨_, single, .quantified part⟩
    · obtain ⟨within, found, shows⟩ := inductionHypothesis deeper
      exact ⟨within, Expr.partsOfAll_singleton _ ▸ .tail _ found, shows⟩
  | @leaf active expr leaf =>
    rw [Expr.partsOfAll_singleton, Expr.parts_of_isLeaf leaf] at inside
    obtain rfl := List.mem_singleton.mp inside
    exact ⟨part, single, .leaf leaf⟩

/-- In the place of a reference that is not being replaced a listing shows the body of its rule. -/
theorem Shows.of_reference {name : String} {rule : Rule}
    (shows : Shows grammar true active [.reference name] shown)
    (collapses : grammar.collapses name = true) (found : grammar.get? name = some rule)
    (idle : name ∉ active) : Shows grammar true (name :: active) [rule.body] shown := by
  generalize single : [Expr.reference name] = exprs at shows
  induction shows with
  | cons first remaining inductionHypothesis =>
    obtain ⟨rfl, rfl⟩ := List.cons_eq_cons.mp single
    cases remaining
    exact inductionHypothesis idle rfl
  | @body active other owner shown _ _ hit _ body =>
    cases single
    rw [found] at hit
    cases hit
    exact body
  | kept stays =>
    cases single
    exact absurd (stays rfl collapses) idle
  | leaf leaf =>
    cases single
    contradiction
  | _ => cases single

/-- What a listing shows for a site that is reached stands inside what it shows for the site in
which replacing began. -/
theorem Shows.of_reaches {site inner : Site} {whole : Expr}
    (reaches : Site.Reaches grammar site inner)
    (shows : Shows grammar true site.active [site.expr] [whole]) :
    ∃ within ∈ whole.parts, Shows grammar true inner.active [inner.expr] [within] := by
  induction reaches with
  | refl =>
    exact ⟨whole, Expr.self_mem_parts whole, shows⟩
  | tail _ enters inductionHypothesis =>
    obtain ⟨outer, inside, showsOuter⟩ := inductionHypothesis
    obtain ⟨met, collapses, found, idle⟩ := enters
    obtain ⟨within, deeper, shows⟩ := showsOuter.part (Expr.partsOfAll_singleton _ ▸ met)
    rw [Expr.partsOfAll_singleton] at deeper
    exact ⟨within, Expr.mem_parts_trans deeper inside, shows.of_reference collapses found idle⟩

end Shown

end GrammarView
