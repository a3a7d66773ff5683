import GrammarView.Proofs.Descriptions
import Mathlib

/-!
# The graph of references

The references that are recorded while bodies are read, compared with the references that occur in
the bodies that are made of them. The order in which references are recorded is not the order in
which they stand in a body, and a reading may add references of its own; the graph holds exactly
the references of the bodies all the same. What every rule keeps of the rules that refer to it, filled
in after all bodies have been read, is what the graph says.
-/

namespace GrammarView

namespace Expr

/-- The name that a part refers to, if it refers to one. -/
def target? : Expr → Option String
  | .reference name => some name
  | .list item _ => some item
  | _ => none

/-- The names that an expression refers to, at any depth. -/
def targets (expr : Expr) : List String :=
  expr.parts.filterMap target?

/-- Several expressions refer to what each of them refers to. -/
theorem filterMap_partsOfAll (items : List Expr) :
    (partsOfAll items).filterMap target? = items.flatMap targets := by
  induction items with
  | nil => rfl
  | cons item rest inductionHypothesis =>
    rw [partsOfAll, List.filterMap_append, inductionHypothesis, List.flatMap_cons, targets]

section Targets

variable {items : List Expr} {item : Expr}

@[simp]
theorem targets_sequence : (sequence items).targets = items.flatMap targets :=
  filterMap_partsOfAll items

@[simp]
theorem targets_choice : (choice items).targets = items.flatMap targets :=
  filterMap_partsOfAll items

@[simp]
theorem targets_list {name : String} : (list name item).targets = name :: item.targets :=
  rfl

@[simp]
theorem targets_quantified {quantifier : Quantifier} :
    (quantified quantifier item).targets = item.targets :=
  rfl

@[simp]
theorem targets_reference {name : String} : (reference name).targets = [name] :=
  rfl

@[simp]
theorem targets_leaf {leaf : LeafTag} {text : String} : (leaf.expr text).targets = [] := by
  cases leaf <;> rfl

@[simp]
theorem targets_tokens {texts : List String} : (tokens texts).targets = [] :=
  rfl

end Targets

/-- A reference that is a part of an expression is one of those to which it refers. -/
theorem mem_targets_of_reference {expr : Expr} {name : String}
    (inside : .reference name ∈ expr.parts) : name ∈ expr.targets :=
  List.mem_filterMap.mpr ⟨.reference name, inside, rfl⟩

end Expr

namespace Validation

section Readings

variable {scope : Scope} {whole : Bool} {values : List Json} {exprs : List Expr}
  {references : List String}

/-- The reading of a list refers to its item, to what its separator refers to, and to its own rule
where it becomes a recursion. -/
theorem mem_listReading {item name : String} {separator : Reading}
    (recorded : name ∈ separator.references ↔ name ∈ separator.expr.targets) :
    name ∈ (listReading scope whole item separator).references ↔
      name ∈ (listReading scope whole item separator).expr.targets := by
  unfold listReading
  split
  · split
    · simp only [delistRule, Expr.targets_choice, Expr.targets_sequence, Expr.targets_reference,
        List.flatMap_cons, List.flatMap_nil, List.mem_append, List.mem_cons, recorded]
      tauto
    · simp only [delistPart, Expr.targets_sequence, Expr.targets_quantified,
        Expr.targets_reference, List.flatMap_cons, List.flatMap_nil, List.mem_append, List.mem_cons,
        recorded]
      tauto
  · simp only [keepList, Expr.targets_list, List.mem_append, List.mem_cons, recorded]
    tauto

/-- The recorded references are exactly those of the expressions. -/
theorem Reads.mem_references (reads : Reads scope whole values exprs references) (name : String) :
    name ∈ references ↔ name ∈ exprs.flatMap Expr.targets := by
  induction reads with
  | nil => rfl
  | cons first remaining firstSame remainingSame =>
    rw [List.flatMap_singleton] at firstSame
    rw [List.mem_append, List.flatMap_cons, List.mem_append, firstSame, remainingSame]
  | reference known => rfl
  | leaf single tag => rw [List.flatMap_singleton, Expr.targets_leaf]
  | tokens single tag => rw [List.flatMap_singleton, Expr.targets_tokens]
  | sequence single tag parts same => rw [same, List.flatMap_singleton, Expr.targets_sequence]
  | choice single tag parts same => rw [same, List.flatMap_singleton, Expr.targets_choice]
  | quantified single tag part same =>
    rw [same, List.flatMap_singleton, List.flatMap_singleton, Expr.targets_quantified]
  | list single tag separated part known recursive same =>
    rw [List.flatMap_singleton] at same ⊢
    exact mem_listReading same

/-- Only names that may be referred to are recorded. -/
theorem Reads.known (reads : Reads scope whole values exprs references) :
    ∀ name ∈ references, name ∈ scope.names := by
  induction reads with
  | nil => exact nofun
  | cons first remaining firstKnown remainingKnown =>
    exact List.forall_mem_append.mpr ⟨firstKnown, remainingKnown⟩
  | reference known => exact List.forall_mem_singleton.mpr known
  | leaf single tag => exact nofun
  | tokens single tag => exact nofun
  | sequence single tag parts known => exact known
  | choice single tag parts known => exact known
  | quantified single tag part known => exact known
  | list single tag separated part item recursive known =>
    unfold listReading
    split
    case isTrue delisted =>
      split
      case isTrue body =>
        have own := List.forall_mem_singleton.mpr (recursive delisted body)
        exact List.forall_mem_cons.mpr ⟨item, List.forall_mem_append.mpr ⟨known, own⟩⟩
      case isFalse => exact List.forall_mem_cons.mpr ⟨item, known⟩
    case isFalse =>
      exact List.forall_mem_append.mpr ⟨known, List.forall_mem_singleton.mpr item⟩

end Readings

end Validation

/-- Erasing repetitions leaves nothing twice. -/
theorem nodup_eraseDups (names : List String) : names.eraseDups.Nodup := by
  match names with
  | [] => exact List.nodup_nil
  | name :: rest =>
    rw [List.eraseDups_cons, List.nodup_cons, List.mem_eraseDups]
    exact ⟨by simp, nodup_eraseDups _⟩
termination_by names.length
decreasing_by exact Nat.lt_succ_of_le (List.length_filter_le _ _)

namespace RuleSet

variable {description : Entries Json} {delist : Bool} {grammar : RuleSet}

/-- Under the name of a rule a rule is found. -/
theorem exists_get? {name : String} (known : name ∈ grammar.names) :
    ∃ rule, grammar.get? name = some rule := by
  obtain ⟨rule, member, rfl⟩ := List.mem_map.mp known
  exact Option.isSome_iff_exists.mp
    (List.find?_isSome.mpr ⟨rule, member, beq_self_eq_true rule.name⟩)

/-- A rule of a grammar whose names differ is found under its name. -/
theorem get?_of_mem (distinct : grammar.names.Nodup) {rule : Rule} (member : rule ∈ grammar.rules) :
    grammar.get? rule.name = some rule := by
  obtain ⟨found, hit⟩ : ∃ found, grammar.get? rule.name = some found := by
    refine Option.isSome_iff_exists.mp (List.find?_isSome.mpr ⟨rule, member, ?_⟩)
    exact beq_self_eq_true rule.name
  obtain ⟨listed, name⟩ := get?_eq_some hit
  rw [hit, List.inj_on_of_nodup_map distinct listed member name]

/-- The edges are the recorded references of the rules. -/
theorem mem_edges {name target : String} :
    (name, target) ∈ grammar.edges ↔
      ∃ rule ∈ grammar.rules, rule.name = name ∧ target ∈ rule.references := by
  simp only [edges, List.mem_flatMap, List.mem_map, Prod.mk.injEq]
  constructor
  · rintro ⟨rule, member, _, recorded, rfl, rfl⟩
    exact ⟨rule, member, rfl, recorded⟩
  · rintro ⟨rule, member, rfl, recorded⟩
    exact ⟨rule, member, target, recorded, rfl, rfl⟩

/-- The referrers of a name are the rules with an edge to it. -/
theorem mem_referrers {name other : String} :
    other ∈ grammar.referrers name ↔ (other, name) ∈ grammar.edges := by
  rw [mem_edges, referrers, List.mem_map]
  simp only [List.mem_filter, List.contains_iff_mem]
  constructor
  · rintro ⟨rule, ⟨member, recorded⟩, rfl⟩
    exact ⟨rule, member, rfl, recorded⟩
  · rintro ⟨rule, member, rfl, recorded⟩
    exact ⟨rule, ⟨member, recorded⟩, rfl⟩

/-- The referrers of a name are some of the rules, in their order. -/
theorem referrers_sublist (name : String) : (grammar.referrers name).Sublist grammar.names :=
  List.filter_sublist.map Rule.name

/-- The references of a name are those recorded for its rule. -/
theorem mem_references (distinct : grammar.names.Nodup) {name target : String} :
    target ∈ grammar.references name ↔ (name, target) ∈ grammar.edges := by
  rw [mem_edges, references]
  constructor
  · intro recorded
    split at recorded
    case h_1 rule found =>
      obtain ⟨member, same⟩ := get?_eq_some found
      exact ⟨rule, member, same, recorded⟩
    case h_2 => contradiction
  · rintro ⟨rule, member, rfl, recorded⟩
    rw [get?_of_mem distinct member]
    exact recorded

/-- The rules whose names a rule keeps are those with an edge to it. -/
theorem Indexed.mem_kept (indexed : grammar.Indexed) {rule : Rule} (member : rule ∈ grammar.rules)
    {other : String} : other ∈ rule.referrers ↔ (other, rule.name) ∈ grammar.edges := by
  rw [indexed rule member, mem_referrers]

/-- A rule is used elsewhere when another rule has an edge to it. -/
theorem Indexed.isUsedElsewhere_iff (indexed : grammar.Indexed) {rule : Rule}
    (member : rule ∈ grammar.rules) :
    rule.isUsedElsewhere = true ↔
      ∃ other, other ≠ rule.name ∧ (other, rule.name) ∈ grammar.edges := by
  simp only [Rule.isUsedElsewhere, List.any_eq_true, indexed.mem_kept member, bne_iff_ne]
  exact exists_congr fun _ => and_comm

/-- A rule is unused when no rule has an edge to it. -/
theorem mem_unused {name : String} :
    name ∈ grammar.unused ↔ name ∈ grammar.names ∧ ∀ other, (other, name) ∉ grammar.edges := by
  simp only [unused, List.mem_filter, List.isEmpty_iff, List.eq_nil_iff_forall_not_mem,
    mem_referrers]

/-- Every name that a body refers to is the name of a rule. -/
theorem known_of_validate (valid : validate description delist = .ok grammar) {rule : Rule}
    (member : rule ∈ grammar.rules) : ∀ name ∈ rule.body.targets, name ∈ grammar.names := by
  obtain ⟨⟨name, value⟩, -, reads⟩ :=
    Validation.exists_left_of_mem (reads_of_validate valid) member
  rw [names_of_validate valid]
  cases reads with
  | rule body =>
    intro target inside
    refine body.known target ((body.mem_references target).mpr ?_)
    rwa [List.flatMap_singleton]

/-- The references that are recorded for a rule are those of its body, each once. -/
theorem recorded_of_validate (valid : validate description delist = .ok grammar) {rule : Rule}
    (member : rule ∈ grammar.rules) :
    rule.references.Nodup ∧ ∀ target, target ∈ rule.references ↔ target ∈ rule.body.targets := by
  obtain ⟨⟨name, value⟩, -, reads⟩ :=
    Validation.exists_left_of_mem (reads_of_validate valid) member
  cases reads with
  | rule body =>
    refine ⟨nodup_eraseDups _, fun target => ?_⟩
    rw [List.mem_eraseDups, body.mem_references, List.flatMap_singleton]

/-- Of the references of one rule, each recorded once, at most one is to a name. -/
theorem filter_recorded {rule : Rule} (once : rule.references.Nodup) (name : String) :
    ((rule.references.map (rule.name, ·)).filter (·.2 == name)).map Prod.fst =
      if rule.references.contains name then [rule.name] else [] := by
  have same : ((rule.references.map (rule.name, ·)).filter (·.2 == name)).map Prod.fst =
      List.replicate (rule.references.count name) rule.name := by
    rw [List.filter_map, List.map_map]
    change (rule.references.filter (· == name)).map (fun _ => rule.name) = _
    rw [List.filter_beq, List.map_replicate]
  rw [same]
  by_cases recorded : name ∈ rule.references
  · rw [List.count_eq_one_of_mem once recorded, if_pos (List.contains_iff_mem.mpr recorded)]
    rfl
  · rw [List.count_eq_zero_of_not_mem recorded, if_neg (mt List.contains_iff_mem.mp recorded)]
    rfl

/-- The referrers of a name stand in the order in which the edges to it were recorded. -/
theorem referrers_eq (once : ∀ rule ∈ grammar.rules, rule.references.Nodup) (name : String) :
    grammar.referrers name = (grammar.edges.filter (·.2 == name)).map Prod.fst := by
  unfold referrers edges
  generalize grammar.rules = rules at once ⊢
  induction rules with
  | nil => rfl
  | cons rule rest inductionHypothesis =>
    obtain ⟨first, others⟩ := List.forall_mem_cons.mp once
    rw [List.flatMap_cons, List.filter_append, List.map_append, ← inductionHypothesis others,
      filter_recorded first, List.filter_cons]
    split <;> rfl

/-- A rule leads to another through any number of references, none included. -/
def Leads (grammar : RuleSet) : String → String → Prop :=
  Relation.ReflTransGen fun name target => (name, target) ∈ grammar.edges

end RuleSet

/-- What holds between the rules of a grammar, the references that are recorded for them, and the
questions that are asked about references. -/
structure ReferenceGraph (names : List String) (grammar : RuleSet) : Prop where
  /-- The rules have the given names, in order. -/
  names : grammar.names = names
  /-- No body refers to a name of no rule, at any depth. -/
  closed : ∀ rule ∈ grammar.rules, ∀ target ∈ rule.body.targets, target ∈ grammar.names
  /-- There is an edge for every reference of a body and no other. -/
  edges : ∀ name target, (name, target) ∈ grammar.edges ↔
    ∃ rule, grammar.get? name = some rule ∧ target ∈ rule.body.targets
  /-- The referrers of a name are the rules with an edge to it, in the order of the rules and each
  once, which is the order in which the edges were recorded. -/
  referrers : ∀ name, (grammar.referrers name).Sublist grammar.names ∧
    (grammar.referrers name).Nodup ∧
    (∀ other, other ∈ grammar.referrers name ↔ (other, name) ∈ grammar.edges) ∧
    grammar.referrers name = (grammar.edges.filter (·.2 == name)).map Prod.fst
  /-- Every rule keeps the names of the rules with an edge to it, each once. -/
  kept : ∀ rule ∈ grammar.rules, rule.referrers.Nodup ∧
    ∀ other, other ∈ rule.referrers ↔ (other, rule.name) ∈ grammar.edges
  /-- A rule counts as used elsewhere when a rule other than itself has an edge to it. -/
  usedElsewhere : ∀ rule ∈ grammar.rules, rule.isUsedElsewhere = true ↔
    ∃ other, other ≠ rule.name ∧ (other, rule.name) ∈ grammar.edges
  /-- The references of a name are those to which its rule has an edge, each once. -/
  references : ∀ name, (grammar.references name).Nodup ∧
    ∀ target, target ∈ grammar.references name ↔ (name, target) ∈ grammar.edges
  /-- The unused rules are those without any edge to them, in the order of the rules. -/
  unused : grammar.unused.Sublist grammar.names ∧
    ∀ name, name ∈ grammar.unused ↔ name ∈ grammar.names ∧ ∀ other, (other, name) ∉ grammar.edges

/-- Every accepted description has the graph of the references of its bodies, however its lists are
read. -/
theorem graph_of_references {description : Entries Json} {delist : Bool} {grammar : RuleSet}
    (distinct : description.Distinct) (valid : validate description delist = .ok grammar) :
    ReferenceGraph description.names grammar := by
  have names : grammar.names = description.names := names_of_validate valid
  have differ : grammar.names.Nodup := names ▸ distinct
  have recorded {rule : Rule} (member : rule ∈ grammar.rules) :=
    RuleSet.recorded_of_validate valid member
  have once : ∀ rule ∈ grammar.rules, rule.references.Nodup := fun _ member => (recorded member).1
  have indexed : grammar.Indexed := indexed_of_validate valid
  have some (name : String) : (grammar.referrers name).Sublist grammar.names :=
    RuleSet.referrers_sublist name
  refine ⟨names, fun rule member => RuleSet.known_of_validate valid member, ?_, ?_, ?_,
    fun rule member => indexed.isUsedElsewhere_iff member, ?_, ?_⟩
  · intro name target
    rw [RuleSet.mem_edges]
    constructor
    · rintro ⟨rule, member, rfl, listed⟩
      exact ⟨rule, RuleSet.get?_of_mem differ member, ((recorded member).2 target).mp listed⟩
    · rintro ⟨rule, found, inside⟩
      obtain ⟨member, same⟩ := RuleSet.get?_eq_some found
      exact ⟨rule, member, same, ((recorded member).2 target).mpr inside⟩
  · intro name
    exact ⟨some name, differ.sublist (some name), fun _ => RuleSet.mem_referrers,
      RuleSet.referrers_eq once name⟩
  · intro rule member
    refine ⟨?_, fun _ => indexed.mem_kept member⟩
    rw [indexed rule member]
    exact differ.sublist (some rule.name)
  · intro name
    refine ⟨?_, fun _ => RuleSet.mem_references differ⟩
    unfold RuleSet.references
    split
    case h_1 rule found => exact once rule (RuleSet.get?_eq_some found).1
    case h_2 => exact List.nodup_nil
  · exact ⟨List.filter_sublist, fun _ => RuleSet.mem_unused⟩

/-- A list whose items may hold it, an alias and a label of names of rules, and a rule that refers
to itself only. -/
def knottedList : Entries Json :=
  [("items", .obj [("list", .str "item"), ("separator",
      .obj [("sequence", .arr [.obj [("token", .str ",")], .obj [("zeroOrMore", .str "blank")]])])]),
    ("item", .obj [("choice", .arr [.str "items", .str "items", .obj [("alias", .str "loop")],
      .obj [("rule", .str "blank")]])]),
    ("blank", .obj [("terminal", .str "space")]),
    ("loop", .obj [("zeroOrOne", .str "loop")])]

/-- The grammar of the list with its items, the list read as a recursion. -/
def knottedListGrammar : RuleSet :=
  ⟨[⟨"items", .choice [.reference "item", .sequence [.reference "items",
        .sequence [.token ",", .quantified .zeroOrMore (.reference "blank")], .reference "item"]],
      some false, true, none, none, ["item", "blank", "items"], ["items", "item"]⟩,
    ⟨"item", .choice [.reference "items", .reference "items", .aliased "loop", .label "blank"],
      some false, true, none, none, ["items"], ["items"]⟩,
    ⟨"blank", .terminal "space", none, true, none, none, [], ["items"]⟩,
    ⟨"loop", .quantified .zeroOrOne (.reference "loop"), none, true, none, none, ["loop"],
      ["loop"]⟩]⟩

/-- The recursion of a list counts as a reference, an alias and a label do not. -/
theorem graph_of_knotted_list :
    knottedList.Distinct ∧ validate knottedList true = .ok knottedListGrammar ∧
      ReferenceGraph knottedList.names knottedListGrammar := by
  have distinct : knottedList.Distinct := by
    simp [Entries.Distinct, Entries.names, knottedList]
  have valid : validate knottedList true = .ok knottedListGrammar := by cbv
  exact ⟨distinct, valid, graph_of_references distinct valid⟩

end GrammarView
