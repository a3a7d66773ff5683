import GrammarView.Grammar.References
import GrammarView.Proofs.ReferenceGraph

/-!
# What rules lead to

The search that gathers names takes every name it visits out of those that remain, so it never
comes back to one. It finds all the same exactly the names that references lead to, because a way
that comes back to a name can leave it for the last time. What it finds among the recorded
references is what the references in the bodies of the rules lead to.
-/

namespace GrammarView

namespace RuleSet

/-- Names that references lead to from the given ones, all the way within a list of names. -/
inductive LeadsWithin (grammar : RuleSet) (within given : List String) : String → Prop where
  | start {name} (member : name ∈ within) (listed : name ∈ given) :
      LeadsWithin grammar within given name
  | onward {name target} (leads : LeadsWithin grammar within given name)
      (member : target ∈ within) (refers : target ∈ grammar.references name) :
      LeadsWithin grammar within given target

variable {grammar : RuleSet} {within wider given further : List String} {name target : String}

/-- A way can be put behind ways to the names that it may begin with. -/
theorem LeadsWithin.behind (leads : LeadsWithin grammar within given name)
    (subset : within ⊆ wider)
    (ways : ∀ first ∈ given, first ∈ within → LeadsWithin grammar wider further first) :
    LeadsWithin grammar wider further name := by
  induction leads with
  | start member listed => exact ways _ listed member
  | onward leads member refers inductionHypothesis =>
    exact .onward inductionHypothesis (subset member) refers

/-- There is no way that begins nowhere. -/
theorem not_leadsWithin_nil : ¬ LeadsWithin grammar within [] name := by
  intro leads
  induction leads with
  | start member listed => contradiction
  | onward leads member refers inductionHypothesis => exact inductionHypothesis

/-- A way to another name need not come back to a name from which it may begin. -/
theorem LeadsWithin.avoid {first : String}
    (leads : LeadsWithin grammar within (first :: given) name) (other : name ≠ first) :
    LeadsWithin grammar (within.erase first) (grammar.references first ++ given) name := by
  induction leads with
  | start member listed =>
    refine .start ((List.mem_erase_of_ne other).mpr member) ?_
    exact List.mem_append_right _ ((List.mem_cons.mp listed).resolve_left other)
  | @onward before name leads member refers inductionHypothesis =>
    have remains : name ∈ within.erase first := (List.mem_erase_of_ne other).mpr member
    by_cases same : before = first
    · subst same
      exact .start remains (List.mem_append_left _ refers)
    · exact .onward (inductionHypothesis same) remains refers

/-- All names on a way within a list of names are among them. -/
theorem LeadsWithin.mem (leads : LeadsWithin grammar within given name) : name ∈ within := by
  cases leads with
  | start member listed => exact member
  | onward leads member refers => exact member

/-- The search gathers the names that references lead to among those that remain. -/
theorem mem_gather {remaining pending : List String} :
    name ∈ grammar.gather remaining pending ↔ LeadsWithin grammar remaining pending name := by
  fun_induction gather grammar remaining pending with
  | case1 remaining =>
    exact ⟨nofun, fun leads => absurd leads not_leadsWithin_nil⟩
  | case2 remaining first pending member inductionHypothesis =>
    rw [List.mem_cons, inductionHypothesis]
    constructor
    · rintro (rfl | leads)
      · exact .start member (.head _)
      · refine leads.behind (List.erase_subset ..) fun next listed remains => ?_
        have remains := List.mem_of_mem_erase remains
        rcases List.mem_append.mp listed with refers | later
        · exact .onward (.start member (.head _)) remains refers
        · exact .start remains (.tail _ later)
    · intro leads
      by_cases same : name = first
      · exact .inl same
      · exact .inr (leads.avoid same)
  | case3 remaining first pending absent inductionHypothesis =>
    rw [inductionHypothesis]
    constructor
    · intro leads
      exact leads.behind (List.Subset.refl _) fun next listed remains =>
        .start remains (.tail _ listed)
    · intro leads
      refine leads.behind (List.Subset.refl _) fun next listed remains => ?_
      rcases List.mem_cons.mp listed with rfl | later
      · exact absurd remains absent
      · exact .start remains later

/-- The search gathers no name twice. -/
theorem nodup_gather {remaining pending : List String} (distinct : remaining.Nodup) :
    (grammar.gather remaining pending).Nodup := by
  fun_induction gather grammar remaining pending with
  | case1 remaining => exact List.nodup_nil
  | case2 remaining first pending member inductionHypothesis =>
    refine List.nodup_cons.mpr ⟨fun again => ?_, inductionHypothesis (distinct.erase first)⟩
    exact distinct.not_mem_erase (mem_gather.mp again).mem
  | case3 remaining first pending absent inductionHypothesis => exact inductionHypothesis distinct

/-- The body of a rule refers to a name, at any depth. -/
def Mentions (grammar : RuleSet) (name target : String) : Prop :=
  ∃ rule, grammar.get? name = some rule ∧ target ∈ rule.body.targets

section Graph

variable {names : List String} (graph : ReferenceGraph names grammar)
include graph

/-- A rule leads to what the references in the bodies of rules lead to. -/
theorem leads_iff_mentions :
    grammar.Leads name target ↔ Relation.ReflTransGen grammar.Mentions name target := by
  have same : (fun name target => (name, target) ∈ grammar.edges) = grammar.Mentions := by
    funext first next
    exact propext (graph.edges first next)
  rw [Leads, same]

/-- A rule can be reached from a rule that leads to it, and nothing else can be reached. -/
theorem mem_reachable :
    target ∈ grammar.reachable name ↔ name ∈ grammar.names ∧ grammar.Leads name target := by
  rw [reachable, mem_gather]
  constructor
  · intro leads
    induction leads with
    | start member listed =>
      obtain rfl := List.mem_singleton.mp listed
      exact ⟨member, .refl⟩
    | onward leads member refers inductionHypothesis =>
      refine ⟨inductionHypothesis.1, inductionHypothesis.2.tail ?_⟩
      exact ((graph.references _).2 _).mp refers
  · rintro ⟨known, leads⟩
    induction leads with
    | refl => exact .start known (.head _)
    | tail leads edge inductionHypothesis =>
      have refers := ((graph.references _).2 _).mpr edge
      obtain ⟨rule, found, inside⟩ := (graph.edges _ _).mp edge
      exact .onward inductionHypothesis
        (graph.closed rule (get?_eq_some found).1 _ inside) refers

/-- A rule is recursive when one of its references leads back to it. -/
theorem isRecursive_iff :
    grammar.isRecursive name = true ↔
      ∃ target, (name, target) ∈ grammar.edges ∧ grammar.Leads target name := by
  simp only [isRecursive, List.any_eq_true, List.contains_iff_mem, mem_reachable graph]
  constructor
  · rintro ⟨target, refers, -, leads⟩
    exact ⟨target, ((graph.references name).2 target).mp refers, leads⟩
  · rintro ⟨target, edge, leads⟩
    obtain ⟨rule, found, inside⟩ := (graph.edges _ _).mp edge
    exact ⟨target, ((graph.references name).2 target).mpr edge,
      graph.closed rule (get?_eq_some found).1 target inside, leads⟩

end Graph

end RuleSet

/-- What is true of the answers to questions about chains of references. -/
structure AnswersReachability (grammar : RuleSet) : Prop where
  /-- From a name of no rule nothing can be reached, not even that name. -/
  unknown : ∀ name, name ∉ grammar.names →
    grammar.reachable name = [] ∧ grammar.isRecursive name = false
  /-- From a rule exactly those rules can be reached to which a chain of references in bodies leads,
  and each is found once. -/
  reachable : ∀ name ∈ grammar.names, (grammar.reachable name).Nodup ∧
    grammar.reachable name ⊆ grammar.names ∧
    ∀ target, target ∈ grammar.reachable name ↔ Relation.ReflTransGen grammar.Mentions name target
  /-- What is referred to by what can be reached can be reached. -/
  closed : ∀ name, ∀ target ∈ grammar.reachable name, ∀ further ∈ grammar.references target,
    further ∈ grammar.reachable name
  /-- A rule is recursive when a chain of at least one reference leads from it back to it. -/
  recursive : ∀ name,
    grammar.isRecursive name = true ↔ Relation.TransGen grammar.Mentions name name

/-- The searches among the rules of an accepted description find exactly what chains of references
in the bodies lead to. -/
theorem reachability_answered {description : Entries Json} {delist : Bool} {grammar : RuleSet}
    (distinct : description.Distinct) (valid : validate description delist = .ok grammar) :
    AnswersReachability grammar := by
  have graph := graph_of_references distinct valid
  have differ : grammar.names.Nodup := graph.names ▸ distinct
  have recursive (name : String) :
      grammar.isRecursive name = true ↔ Relation.TransGen grammar.Mentions name name := by
    rw [RuleSet.isRecursive_iff graph, Relation.TransGen.head'_iff]
    simp only [graph.edges, RuleSet.leads_iff_mentions graph, RuleSet.Mentions]
  constructor
  case unknown =>
    intro name absent
    constructor
    · refine List.eq_nil_iff_forall_not_mem.mpr fun target member => ?_
      exact absent ((RuleSet.mem_reachable graph).mp member).1
    · refine Bool.eq_false_iff.mpr fun found => ?_
      obtain ⟨target, ⟨rule, here, -⟩, -⟩ :=
        Relation.TransGen.head'_iff.mp ((recursive name).mp found)
      exact absent (RuleSet.mem_names_of_get? here)
  case reachable =>
    intro name known
    refine ⟨RuleSet.nodup_gather differ, fun target member => ?_, fun target => ?_⟩
    · exact (RuleSet.mem_gather.mp member).mem
    · rw [RuleSet.mem_reachable graph, RuleSet.leads_iff_mentions graph]
      exact and_iff_right known
  case closed =>
    intro name target member further refers
    obtain ⟨known, leads⟩ := (RuleSet.mem_reachable graph).mp member
    have edge := ((graph.references target).2 further).mp refers
    exact (RuleSet.mem_reachable graph).mpr ⟨known, leads.tail edge⟩
  case recursive => exact recursive

/-- The items of a knotted list lead to themselves and to what separates them, which leads nowhere
else, and no rule leads to the loop beside them. -/
theorem knotted_list_reachability_answered :
    knottedList.Distinct ∧ validate knottedList true = .ok knottedListGrammar ∧
      knottedListGrammar.reachable "item" = ["item", "items", "blank"] ∧
      knottedListGrammar.isRecursive "blank" = false ∧
      knottedListGrammar.isRecursive "loop" = true ∧ AnswersReachability knottedListGrammar := by
  have distinct : knottedList.Distinct := by
    simp [Entries.Distinct, Entries.names, knottedList]
  have valid : validate knottedList true = .ok knottedListGrammar := by cbv
  exact ⟨distinct, valid, by cbv, by cbv, by cbv, reachability_answered distinct valid⟩

end GrammarView
