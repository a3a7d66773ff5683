import GrammarView.Proofs.Expansion
import GrammarView.Proofs.Spans

/-!
# Rules in collapsed listings

Where a rule is to be found in a collapsed listing: under its own name or inside a rule that is
listed. Which rules are left out is decided for each rule from those that refer to it, so rules that
only refer to each other are left out together, and then none of them is shown anywhere.
-/

namespace GrammarView

namespace Html

/-- The right-hand side of a production. -/
def rightSide (production : Production) : List Markup :=
  [Markup.written (Production.continuation (production.name.length + 2))].intercalate
    (production.alternatives.map fun lexemes => lexemes.map spell)

/-- A production is its name, the sign that defines it, and its right-hand side. -/
theorem trees_eq (production : Production) :
    trees production
      = spanRule production.name :: .written Production.defines :: rightSide production :=
  rfl

/-- A production consists of the name of its rule, of fixed texts, and of the lexemes of its
alternatives. -/
theorem exists_of_mem_trees {production : Production} {tree : Markup}
    (member : tree ∈ trees production) :
    tree = spell (.rule production.name) ∨ (∃ mark, Markup.IsPlain mark ∧ tree = .written mark) ∨
      ∃ lexemes ∈ production.alternatives, ∃ lexeme ∈ lexemes, tree = spell lexeme := by
  rw [trees_eq] at member
  rcases List.mem_cons.mp member with rfl | member
  · exact .inl rfl
  rcases List.mem_cons.mp member with rfl | member
  · exact .inr (.inl ⟨_, by decide, rfl⟩)
  by_cases between : tree ∈ [.written (Production.continuation (production.name.length + 2))]
  · exact .inr (.inl ⟨_, isPlain_continuation _, List.mem_singleton.mp between⟩)
  · obtain ⟨listed, alternative, inside⟩ := exists_mem_of_mem_intercalate between member
    obtain ⟨lexemes, offered, rfl⟩ := List.mem_map.mp alternative
    obtain ⟨lexeme, printed, rfl⟩ := List.mem_map.mp inside
    exact .inr (.inr ⟨lexemes, offered, lexeme, printed, rfl⟩)

/-- Trees side by side are written side by side. -/
theorem infix_writeTrees {inner outer : List Markup} (inside : inner <:+: outer) :
    Markup.writeTrees inner <:+: Markup.writeTrees outer := by
  obtain ⟨before, after, rfl⟩ := inside
  rw [writeTrees_append, writeTrees_append]
  exact List.infix_append _ _ _

/-- The content of an element stands in what is written of it. -/
theorem infix_enclose (name : String) (attributes : List (String × String)) (content : List Char) :
    content <:+: Markup.enclose name attributes content := by
  unfold Markup.enclose
  by_cases empty : content.isEmpty
  · rw [List.isEmpty_iff.mp empty]
    exact List.nil_infix
  · rw [if_neg empty]
    exact ⟨'<' :: name.toList ++ attributes.flatMap Markup.writeAttribute ++ ['>'],
      '<' :: '/' :: name.toList ++ ['>'], by simp⟩

section Entry

variable {grammar : RuleSet} {collapsed : Bool} {rule : Rule}

/-- Lexemes that stand in an alternative of a rule are written in the block of the rule. -/
theorem infix_entry {lexemes alternative : List Lexeme}
    (offered : alternative ∈ (production grammar collapsed rule).alternatives)
    (inside : lexemes <:+: alternative) :
    Markup.writeTrees (lexemes.map spell) <:+: Markup.writeTree (entry grammar collapsed rule) := by
  have joined : alternative.map spell <:+: rightSide (production grammar collapsed rule) := by
    rw [rightSide]
    exact infix_intercalate (List.mem_map.mpr ⟨alternative, offered, rfl⟩)
  have listed : lexemes.map spell <:+: trees (production grammar collapsed rule) := by
    rw [trees_eq]
    exact ((inside.map spell).trans joined).trans (List.suffix_append [_, _] _).isInfix
  exact (infix_writeTrees listed).trans (infix_enclose _ _ _)

/-- A collapsed listing lists the rules that do not collapse. -/
theorem mem_listed :
    rule ∈ listed grammar true false ↔
      rule ∈ grammar.rules ∧ ¬ grammar.collapses rule.name = true := by
  simp [listed, isCollapsed]

/-- A listing without remarks has a block for every rule that is listed and nothing else. -/
theorem listing_eq_map : listing grammar collapsed false
    = (listed grammar collapsed false).map (entry grammar collapsed) := by
  rw [listing, List.map_eq_flatMap]
  rfl

/-- A collapsed listing is empty when no rule is listed. -/
theorem writeAll_listing_eq_empty :
    Markup.writeAll (listing grammar true false) = "" ↔ listed grammar true false = [] := by
  rw [listing_eq_map]
  cases listed grammar true false with
  | nil => exact iff_of_true rfl rfl
  | cons rule rest =>
    obtain ⟨more, opens⟩ : ∃ more, Markup.writeTree (entry grammar true rule) = '<' :: more := by
      rw [entry, Markup.writeTree, Markup.enclose]
      split <;> exact ⟨_, rfl⟩
    simp [Markup.writeAll, Markup.writeTrees, opens]

end Entry

end Html

/-- Whether a listed rule shows the body of another one in the place of a reference to it. -/
def ShownInside (grammar : RuleSet) (rule inner : Rule) : Prop :=
  ∃ site shown whole operand,
    Site.Reaches grammar (.ofRule rule) site ∧
      Site.Enters grammar site ⟨inner.name :: site.active, inner.body⟩ ∧
      Shows grammar true (inner.name :: site.active) [inner.body] [shown] ∧
      Markup.writeTrees ((shown.lexemes whole operand).map Html.spell) <:+:
        Markup.writeTree (Html.entry grammar true rule)

section Listed

variable {description : Entries Json} {grammar : RuleSet} {rule inner : Rule} {site : Site}

/-- What is entered from the body of a rule is entered from an expression that is printed as one of
its alternatives. -/
theorem exists_alternative_of_enters (notList : ∀ item separator, rule.body ≠ .list item separator)
    (enters : Site.Enters grammar (.ofRule rule) site) :
    ∃ expr whole, Site.Enters grammar ⟨[rule.name], expr⟩ site ∧
      (expr.inlined (grammar.shownBody? true) (grammar.replaceable rule)).lexemes whole false
        ∈ (Html.production grammar true rule).alternatives := by
  obtain ⟨met, collapses, found, idle⟩ := enters
  cases form : rule.body with
  | choice items =>
    rw [Site.ofRule, form] at met
    rcases List.mem_cons.mp met with same | deeper
    · contradiction
    · obtain ⟨item, listed, within⟩ := Expr.mem_partsOfAll.mp deeper
      refine ⟨item, false, .body within collapses found idle, ?_⟩
      rw [Html.production, RuleSet.production, form]
      exact List.mem_map_of_mem listed
  | list item separator => exact (notList item separator form).elim
  | _ =>
    refine ⟨rule.body, true, .body met collapses found idle, ?_⟩
    rw [Html.production, RuleSet.production, form]
    exact .head _

/-- A rule whose body is entered is shown inside the rule in which replacing began. -/
theorem shownInside_of_enters (distinct : grammar.names.Nodup)
    (notList : ∀ item separator, rule.body ≠ .list item separator)
    (reaches : Site.Reaches grammar (.ofRule rule) site)
    (enters : Site.Enters grammar site ⟨inner.name :: site.active, inner.body⟩) :
    ShownInside grammar rule inner := by
  obtain ⟨first, begins, further⟩ := Relation.TransGen.head'_iff.mp (.tail' reaches enters)
  obtain ⟨expr, printed, entersFirst, offered⟩ := exists_alternative_of_enters notList begins
  obtain ⟨shown, inside, shows⟩ :=
    (shows_in_rule distinct true rule expr).of_reaches (.head entersFirst further)
  obtain ⟨whole, operand, lexemes⟩ := Expr.lexemes_infix inside printed false
  exact ⟨site, shown, whole, operand, reaches, enters, shows, Html.infix_entry offered lexemes⟩

/-- In a delisted grammar no body is a list. -/
theorem notList_of_validate (valid : validate description true = .ok grammar)
    (member : rule ∈ grammar.rules) : ∀ item separator, rule.body ≠ .list item separator := by
  intro item separator form
  have plain := plain_of_validate valid member rule.body (Expr.self_mem_partsOfAll rule.body)
  rwa [form] at plain

/-- A rule that is shown inside another one is reached from it by references. -/
theorem ShownInside.leads (shown : ShownInside grammar rule inner)
    (distinct : grammar.names.Nodup) (valid : validate description true = .ok grammar)
    (member : rule ∈ grammar.rules) : grammar.Leads rule.name inner.name := by
  obtain ⟨site, -, -, -, reaches, enters, -, -⟩ := shown
  obtain ⟨last, ⟨-, ⟨rest, active⟩, -⟩, leads⟩ :=
    Site.Reaches.ownedBy distinct valid member (reaches.tail enters)
  obtain ⟨rfl, -⟩ := List.cons_eq_cons.mp active
  exact leads

/-- Whether a rule is to be found in a collapsed listing. -/
def Found (grammar : RuleSet) (rule : Rule) : Prop :=
  rule ∈ Html.listed grammar true false ∨
    ∃ other ∈ Html.listed grammar true false, ShownInside grammar other rule

/-- What a rule refers to is found when the rule is. -/
theorem Found.step (found : Found grammar rule) (distinct : grammar.names.Nodup)
    (valid : validate description true = .ok grammar) (member : rule ∈ grammar.rules)
    (known : inner ∈ grammar.rules) (edge : (rule.name, inner.name) ∈ grammar.edges) :
    Found grammar inner := by
  by_cases collapses : grammar.collapses inner.name = true
  case neg => exact .inl (Html.mem_listed.mpr ⟨known, collapses⟩)
  case pos =>
    have hit := RuleSet.get?_of_mem distinct known
    obtain ⟨other, listed, site, reaches, body⟩ : ∃ other ∈ Html.listed grammar true false,
        ∃ site, Site.Reaches grammar (.ofRule other) site ∧ site.expr = rule.body := by
      rcases found with here | ⟨other, listed, site, _, _, _, reaches, enters, -, -⟩
      · exact ⟨rule, here, .ofRule rule, .refl, rfl⟩
      · exact ⟨other, listed, _, reaches.tail enters, rfl⟩
    obtain ⟨otherMember, stays⟩ := Html.mem_listed.mp listed
    have notList := notList_of_validate valid otherMember
    refine .inr ⟨other, listed, ?_⟩
    by_cases active : inner.name ∈ site.active
    · -- The body is being shown around the reference, so it was entered before.
      have fresh : inner.name ∉ (Site.ofRule other).active := by
        intro own
        obtain same := List.mem_singleton.mp own
        exact stays (same ▸ collapses)
      obtain ⟨outer, entered, before, first, enters, -⟩ := reaches.entered active fresh
      rw [hit] at first
      cases first
      exact shownInside_of_enters distinct notList before enters
    · obtain ⟨owner, ownerFound, met⟩ := (RuleSet.mem_edges_iff_reference distinct valid).mp edge
      rw [RuleSet.get?_of_mem distinct member] at ownerFound
      cases ownerFound
      rw [← body] at met
      exact shownInside_of_enters distinct notList reaches (.body met collapses hit active)

/-- What a listed rule leads to is found. -/
theorem found_of_leads (distinct : grammar.names.Nodup)
    (valid : validate description true = .ok grammar)
    (listed : rule ∈ Html.listed grammar true false) {name : String}
    (leads : grammar.Leads rule.name name) :
    ∀ target ∈ grammar.rules, target.name = name → Found grammar target := by
  obtain ⟨member, -⟩ := Html.mem_listed.mp listed
  induction leads with
  | refl =>
    intro target known same
    have hit := RuleSet.get?_of_mem distinct member
    rw [← same, RuleSet.get?_of_mem distinct known] at hit
    cases hit
    exact .inl listed
  | tail _ edge inductionHypothesis =>
    rintro target known rfl
    obtain ⟨owner, ownerFound, -⟩ := (RuleSet.mem_edges_iff_reference distinct valid).mp edge
    obtain ⟨ownerMember, rfl⟩ := RuleSet.get?_eq_some ownerFound
    exact (inductionHypothesis owner ownerMember rfl).step distinct valid ownerMember known edge

end Listed

/-- A collapsed listing has a block for every rule that does not collapse. A rule is found in it,
under its own name or inside a listed rule, exactly when a listed rule leads to it, and the listing
is empty exactly when every rule collapses. -/
theorem found_iff_leads {description : Entries Json} {grammar : RuleSet}
    (distinct : description.Distinct) (valid : validate description true = .ok grammar) :
    Html.listing grammar true false
        = (Html.listed grammar true false).map (Html.entry grammar true) ∧
      (∀ rule ∈ grammar.rules, Found grammar rule ↔
        ∃ origin ∈ Html.listed grammar true false, grammar.Leads origin.name rule.name) ∧
      (Markup.writeAll (Html.listing grammar true false) = "" ↔
        ∀ rule ∈ grammar.rules, grammar.collapses rule.name = true) := by
  have differ : grammar.names.Nodup := names_of_validate valid ▸ distinct
  refine ⟨Html.listing_eq_map, fun rule member => ⟨?_, ?_⟩, ?_⟩
  · rintro (here | ⟨other, listed, shown⟩)
    · exact ⟨rule, here, .refl⟩
    · exact ⟨other, listed, shown.leads differ valid (Html.mem_listed.mp listed).1⟩
  · rintro ⟨origin, listed, leads⟩
    exact found_of_leads differ valid listed leads rule member rfl
  · rw [Html.writeAll_listing_eq_empty, List.eq_nil_iff_forall_not_mem]
    simp only [Html.mem_listed, not_and, not_not]

/-- Two rules of which each is used by the other one only. -/
def ring : Entries Json :=
  [("a", .obj [("sequence", .arr [.str "b"])]), ("b", .obj [("sequence", .arr [.str "a"])])]

/-- The rules of the ring. -/
def ringRules : List Rule :=
  [⟨"a", .sequence [.reference "b"], none, true, none, none, ["b"], ["b"]⟩,
    ⟨"b", .sequence [.reference "a"], none, true, none, none, ["a"], ["a"]⟩]

/-- The ring beside a rule that no rule refers to and another one that it refers to. -/
def ringBesideRoot : Entries Json :=
  ("s", .obj [("sequence", .arr [.str "t", .obj [("token", .str "x")]])])
    :: ("t", .obj [("terminal", .str "digit")]) :: ring

/-- The grammar of the ring beside the other rules. -/
def ringBesideRootGrammar : RuleSet :=
  ⟨⟨"s", .sequence [.reference "t", .token "x"], none, true, none, none, ["t"], []⟩
    :: ⟨"t", .terminal "digit", none, true, none, none, [], ["s"]⟩ :: ringRules⟩

/-- The root leads to itself and to the rule that it refers to, not to the ring. -/
theorem leads_beside_ring {name : String} :
    ringBesideRootGrammar.Leads "s" name ↔ name = "s" ∨ name = "t" := by
  have edges : ringBesideRootGrammar.edges = [("s", "t"), ("a", "b"), ("b", "a")] := rfl
  constructor
  · intro leads
    induction leads with
    | refl => exact .inl rfl
    | tail _ edge inductionHypothesis =>
      rw [edges] at edge
      rcases inductionHypothesis with rfl | rfl
      · exact .inr (by simpa using edge)
      · simp at edge
  · rintro (rfl | rfl)
    · exact .refl
    · exact .single (edges ▸ .head _)

/-- Beside a root the rules of a ring are lost, and all others are found. -/
theorem found_beside_ring :
    ringBesideRoot.Distinct ∧ validate ringBesideRoot true = .ok ringBesideRootGrammar ∧
      (∀ rule ∈ ringBesideRootGrammar.rules,
        Found ringBesideRootGrammar rule ↔ rule.name = "s" ∨ rule.name = "t") ∧
      Markup.writeAll (Html.listing ringBesideRootGrammar true false) ≠ "" := by
  have distinct : ringBesideRoot.Distinct := by
    simp [Entries.Distinct, Entries.names, ringBesideRoot, ring]
  have valid : validate ringBesideRoot true = .ok ringBesideRootGrammar := by cbv
  obtain ⟨-, found, empty⟩ := found_iff_leads distinct valid
  have listed : (Html.listed ringBesideRootGrammar true false).map Rule.name = ["s"] := by
    decide
  obtain ⟨root, rootListed, rootName⟩ : ∃ root ∈ Html.listed ringBesideRootGrammar true false,
      root.name = "s" :=
    List.mem_map.mp (listed ▸ .head _)
  refine ⟨distinct, valid, fun rule member => ?_, fun none => ?_⟩
  · rw [found rule member, ← leads_beside_ring]
    constructor
    · rintro ⟨origin, originListed, leads⟩
      have name : origin.name ∈ ["s"] := listed ▸ List.mem_map_of_mem originListed
      exact List.mem_singleton.mp name ▸ leads
    · intro leads
      exact ⟨root, rootListed, rootName ▸ leads⟩
  · exact absurd (empty.mp none _ (.head _)) (by decide)

/-- The rules of a ring alone are all lost, and the listing is empty. -/
theorem ring_lost :
    ring.Distinct ∧ validate ring true = .ok ⟨ringRules⟩ ∧ ringRules ≠ [] ∧
      Markup.writeAll (Html.listing ⟨ringRules⟩ true false) = "" ∧
      ∀ rule ∈ ringRules, ¬ Found ⟨ringRules⟩ rule := by
  have distinct : ring.Distinct := by simp [Entries.Distinct, Entries.names, ring]
  have valid : validate ring true = .ok ⟨ringRules⟩ := by cbv
  have none : Html.listed ⟨ringRules⟩ true false = [] := by rfl
  refine ⟨distinct, valid, List.cons_ne_nil _ _, Html.writeAll_listing_eq_empty.mpr none, ?_⟩
  rintro rule - found
  rw [Found, none] at found
  simp at found

end GrammarView
