import GrammarView.Proofs.Reachability
import Mathlib

/-!
# Cycles of references

The search for cycles finds every cycle that meets no name twice, and each only once: it looks for
a cycle from its least name and passes only through greater ones. A name from which no way leads
back is given up early, which loses no cycle, since every way back is one for that test too.
-/

namespace GrammarView

namespace RuleSet

/-- A name refers to another. -/
def Refers (grammar : RuleSet) (name target : String) : Prop :=
  (name, target) ∈ grammar.edges

/-- A cycle of references that meets no name twice: each of its names refers to the next one, and
the last one to the first. -/
structure IsElementary (grammar : RuleSet) (cycle : Cycle String) : Prop where
  some : cycle ≠ Cycle.nil
  distinct : cycle.Nodup
  closed : cycle.Chain grammar.Refers

/-- The names that are passed on a way from a name back to `start`. Each is another one of the
allowed names. -/
inductive WayBack (grammar : RuleSet) (start : String) :
    List String → String → List String → Prop where
  | last {allowed name} (refers : start ∈ grammar.references name) :
      WayBack grammar start allowed name []
  | onward {allowed name target way} (refers : target ∈ grammar.references name)
      (other : target ≠ start) (member : target ∈ allowed)
      (rest : WayBack grammar start (allowed.erase target) target way) :
      WayBack grammar start allowed name (target :: way)

variable {grammar : RuleSet} {start name : String} {allowed path way within given : List String}

/-- A way back leads back within any names that hold those it may pass. -/
theorem WayBack.leadsWithin (back : WayBack grammar start allowed name way)
    (subset : allowed ⊆ within) (home : start ∈ within)
    (leads : LeadsWithin grammar within given name) : LeadsWithin grammar within given start := by
  induction back with
  | last refers => exact .onward leads home refers
  | onward refers other member rest inductionHypothesis =>
    exact inductionHypothesis (List.Subset.trans (List.erase_subset ..) subset)
      (.onward leads (subset member) refers)

/-- From a name on a way back, the test for a way back succeeds. -/
theorem WayBack.leadsBack (back : WayBack grammar start (allowed.erase name) name way)
    (member : name ∈ allowed) : grammar.leadsBack start allowed name = true := by
  have leads : LeadsWithin grammar (start :: allowed) [name] start :=
    back.leadsWithin (List.Subset.trans (List.erase_subset ..) (List.subset_cons_self ..)) (.head _)
      (.start (.tail _ member) (.head _))
  rw [RuleSet.leadsBack, List.contains_iff_mem]
  exact mem_gather.mpr leads

/-- The search along a path finds the path with every way back from its end. -/
theorem mem_cyclesFrom {cycle : List String} :
    cycle ∈ grammar.cyclesFrom start allowed path name ↔
      ∃ way, WayBack grammar start allowed name way ∧ cycle = path.reverse ++ way := by
  fun_induction cyclesFrom grammar start allowed path name with
  | case1 allowed path name inductionHypothesis =>
    rw [List.mem_flatMap]
    constructor
    · rintro ⟨target, refers, found⟩
      split at found
      case isTrue same =>
        subst same
        exact ⟨[], .last refers, by simpa using found⟩
      case isFalse other =>
        split at found
        case isTrue member =>
          split at found
          case isTrue leads =>
            obtain ⟨way, rest, rfl⟩ := (inductionHypothesis target member).mp found
            exact ⟨target :: way, .onward refers other member rest, by simp⟩
          case isFalse => contradiction
        case isFalse => contradiction
    · rintro ⟨way, back, rfl⟩
      cases back with
      | last refers => exact ⟨start, refers, by simp⟩
      | @onward _ _ target way refers other member rest =>
        have leads := rest.leadsBack member
        refine ⟨target, refers, ?_⟩
        rw [if_neg other, if_pos member, if_pos leads]
        exact (inductionHypothesis target member).mpr ⟨way, rest, by simp⟩

/-- A name that the search finds cycles through is the next one after the path in each of them. -/
theorem exists_way_of_mem_cyclesFrom {cycle : List String}
    (found : cycle ∈ grammar.cyclesFrom start allowed (name :: path) name) :
    ∃ way, cycle = path.reverse ++ name :: way := by
  obtain ⟨way, -, same⟩ := mem_cyclesFrom.mp found
  exact ⟨way, by simpa using same⟩

/-- The search along a path finds nothing twice. -/
theorem nodup_cyclesFrom (once : ∀ name, (grammar.references name).Nodup) :
    (grammar.cyclesFrom start allowed path name).Nodup := by
  fun_induction cyclesFrom grammar start allowed path name with
  | case1 allowed path name inductionHypothesis =>
    rw [List.nodup_flatMap]
    constructor
    · intro target refers
      split
      case isTrue => exact List.nodup_singleton _
      case isFalse other =>
        split
        case isTrue member =>
          split
          case isTrue leads => exact inductionHypothesis target member
          case isFalse => exact List.nodup_nil
        case isFalse => exact List.nodup_nil
    -- What is found through a name tells that name: it comes next after the path.
    · let next (cycle : List String) : Option String := (cycle.drop path.length).head?
      have tells {target : String} {cycle : List String} (found : cycle ∈
          if target = start then [path.reverse]
          else if target ∈ allowed then
            if grammar.leadsBack start allowed target then
              grammar.cyclesFrom start (allowed.erase target) (target :: path) target
            else []
          else []) : next cycle = if target = start then none else some target := by
        split at found
        case isTrue same => simp [next, List.mem_singleton.mp found, same]
        case isFalse other =>
          split at found
          case isTrue =>
            split at found
            case isTrue =>
              obtain ⟨way, rfl⟩ := exists_way_of_mem_cyclesFrom found
              simp [next, other]
            case isFalse => contradiction
          case isFalse => contradiction
      refine (once name).imp fun different cycle found again => ?_
      have same := (tells found).symm.trans (tells again)
      grind

/-- A rotation of a list without repetitions that begins with the same name is the list itself. -/
theorem eq_of_isRotated_cons {other : List String} (distinct : (name :: way).Nodup)
    (rotated : (name :: way).IsRotated (name :: other)) : way = other := by
  obtain ⟨count, within, turned⟩ := List.isRotated_iff_mod.mp rotated
  rcases within.lt_or_eq with inside | whole
  · have here : (name :: way)[count]? = (name :: way)[0]? := by
      rw [← List.head?_rotate inside, turned]
      rfl
    have none : count = 0 := (List.getElem?_inj inside distinct).mp here
    subst none
    exact (List.cons.inj (turned.symm.trans (List.rotate_zero _))).2.symm
  · subst whole
    exact (List.cons.inj (turned.symm.trans (List.rotate_length _))).2.symm

/-- A cycle may be said to begin with any of its names. -/
theorem exists_coe_cons {cycle : Cycle String} (member : name ∈ cycle) :
    ∃ way : List String, cycle = (name :: way : List String) := by
  induction cycle using Quotient.inductionOn with
  | h names =>
    obtain ⟨before, after, rfl⟩ := List.append_of_mem member
    exact ⟨after ++ before, Cycle.coe_eq_coe.mpr List.isRotated_append⟩

/-- A name that leads to another leads there on a way of references that meets no name twice. -/
theorem exists_simple_way {target : String} (leads : grammar.Leads name target) :
    ∃ way : List String, List.IsChain grammar.Refers (name :: way) ∧ (name :: way).Nodup ∧
      (name :: way).getLast (List.cons_ne_nil _ _) = target := by
  induction leads using Relation.ReflTransGen.head_induction_on with
  | refl => exact ⟨[], List.isChain_singleton _, List.nodup_singleton _, rfl⟩
  | @head name next refers leads inductionHypothesis =>
    obtain ⟨way, chain, distinct, ends⟩ := inductionHypothesis
    by_cases again : name ∈ next :: way
    -- A way that comes back to the name is cut off up to there.
    · obtain ⟨before, after, same⟩ := List.append_of_mem again
      refine ⟨after, ?_, ?_, ?_⟩
      · exact (same ▸ chain).right_of_append
      · exact (List.nodup_append.mp (same ▸ distinct)).2.1
      · rw [← ends]
        simp [same]
    · exact ⟨next :: way, List.isChain_cons_cons.mpr ⟨refers, chain⟩,
        List.nodup_cons.mpr ⟨again, distinct⟩, ends⟩

section Graph

variable {names : List String} (graph : ReferenceGraph names grammar)
include graph

/-- What a name refers to are the recorded references of its rule. -/
theorem mem_references_iff {target : String} :
    target ∈ grammar.references name ↔ grammar.Refers name target :=
  (graph.references name).2 target

/-- A name that refers to another is the name of a rule, and so is the other. -/
theorem Refers.known {target : String} (refers : grammar.Refers name target) :
    name ∈ grammar.names ∧ target ∈ grammar.names := by
  obtain ⟨rule, found, inside⟩ := (graph.edges name target).mp refers
  exact ⟨mem_names_of_get? found, graph.closed rule (get?_eq_some found).1 target inside⟩

/-- A way back is a chain of references through different names among those allowed. -/
theorem wayBack_iff (distinct : allowed.Nodup) :
    WayBack grammar start allowed name way ↔
      List.IsChain grammar.Refers (name :: (way ++ [start])) ∧ way.Nodup ∧
        ∀ target ∈ way, target ∈ allowed ∧ target ≠ start := by
  constructor
  · intro back
    induction back with
    | last refers =>
      exact ⟨List.isChain_pair.mpr ((mem_references_iff graph).mp refers), List.nodup_nil, nofun⟩
    | @onward allowed name target way refers other member rest inductionHypothesis =>
      obtain ⟨chain, different, inside⟩ := inductionHypothesis (distinct.erase target)
      refine ⟨List.isChain_cons_cons.mpr ⟨(mem_references_iff graph).mp refers, chain⟩,
        List.nodup_cons.mpr ⟨fun again => ?_, different⟩,
        List.forall_mem_cons.mpr ⟨⟨member, other⟩, fun later listed => ?_⟩⟩
      · exact distinct.not_mem_erase (inside target again).1
      · exact ⟨List.mem_of_mem_erase (inside later listed).1, (inside later listed).2⟩
  · rintro ⟨chain, different, inside⟩
    induction way generalizing name allowed with
    | nil => exact .last ((mem_references_iff graph).mpr (List.isChain_pair.mp chain))
    | cons target way inductionHypothesis =>
      obtain ⟨refers, chain⟩ := List.isChain_cons_cons.mp chain
      obtain ⟨fresh, different⟩ := List.nodup_cons.mp different
      obtain ⟨⟨member, other⟩, inside⟩ := List.forall_mem_cons.mp inside
      refine .onward ((mem_references_iff graph).mpr refers) other member
        (inductionHypothesis (distinct.erase target) chain different fun later listed => ?_)
      have apart : later ≠ target := fun same => fresh (same ▸ listed)
      exact ⟨(List.mem_erase_of_ne apart).mpr (inside later listed).1, (inside later listed).2⟩

/-- All names on a way of references to a last name are names of rules. -/
theorem known_of_isChain (chain : List.IsChain grammar.Refers (name :: (way ++ [start]))) :
    ∀ target ∈ name :: way, target ∈ grammar.names := by
  induction way generalizing name with
  | nil => exact List.forall_mem_singleton.mpr ((List.isChain_pair.mp chain).known graph).1
  | cons target way inductionHypothesis =>
    obtain ⟨refers, chain⟩ := List.isChain_cons_cons.mp chain
    exact List.forall_mem_cons.mpr ⟨(refers.known graph).1, inductionHypothesis chain⟩

/-- The ways back from a name through greater ones make the elementary cycles of which it is the
least name. -/
theorem wayBack_greater_iff (distinct : grammar.names.Nodup) :
    start ∈ grammar.names ∧ WayBack grammar start (grammar.names.filter (start < ·)) start way ↔
      grammar.IsElementary (start :: way : List String) ∧ ∀ target ∈ way, start < target := by
  rw [wayBack_iff graph (distinct.filter _)]
  simp only [List.mem_filter, decide_eq_true_eq]
  constructor
  · rintro ⟨known, chain, different, inside⟩
    have greater : ∀ target ∈ way, start < target := fun target member => (inside target member).1.2
    have fresh : start ∉ way := fun again => lt_irrefl start (greater start again)
    refine ⟨⟨(Cycle.coe_eq_nil _).not.mpr (List.cons_ne_nil _ _), ?_, ?_⟩, greater⟩
    · exact Cycle.nodup_coe_iff.mpr (List.nodup_cons.mpr ⟨fresh, different⟩)
    · exact (Cycle.chain_coe_cons _ _ _).mpr chain
  · rintro ⟨⟨-, different, closed⟩, greater⟩
    have chain := (Cycle.chain_coe_cons _ _ _).mp closed
    obtain ⟨known, inside⟩ := List.forall_mem_cons.mp (known_of_isChain graph chain)
    refine ⟨known, chain, (List.nodup_cons.mp (Cycle.nodup_coe_iff.mp different)).2, ?_⟩
    exact fun target member =>
      ⟨⟨inside target member, greater target member⟩, (greater target member).ne'⟩

/-- The cycles that are found are the elementary ones, each as the list that begins with its least
name. -/
theorem mem_cycles (distinct : grammar.names.Nodup) {cycle : List String} :
    cycle ∈ grammar.cycles ↔ ∃ start way, cycle = start :: way ∧
      grammar.IsElementary (start :: way : List String) ∧ ∀ target ∈ way, start < target := by
  simp only [cycles, cyclesThrough, List.mem_flatMap, mem_cyclesFrom, List.reverse_singleton,
    List.singleton_append]
  constructor
  · rintro ⟨start, known, way, back, rfl⟩
    exact ⟨start, way, rfl, (wayBack_greater_iff graph distinct).mp ⟨known, back⟩⟩
  · rintro ⟨start, way, rfl, found⟩
    obtain ⟨known, back⟩ := (wayBack_greater_iff graph distinct).mpr found
    exact ⟨start, known, way, back, rfl⟩

/-- The search finds nothing twice. -/
theorem nodup_cycles (distinct : grammar.names.Nodup) : grammar.cycles.Nodup := by
  rw [cycles, List.nodup_flatMap]
  refine ⟨fun start known => nodup_cyclesFrom fun name => (graph.references name).1, ?_⟩
  refine distinct.imp fun different cycle found again => different ?_
  obtain ⟨way, -, rfl⟩ := mem_cyclesFrom.mp found
  obtain ⟨other, -, same⟩ := mem_cyclesFrom.mp again
  exact (List.cons.inj same).1

/-- Two cycles that are found are not rotations of each other. -/
theorem eq_of_isRotated (distinct : grammar.names.Nodup) {first second : List String}
    (found : first ∈ grammar.cycles) (again : second ∈ grammar.cycles)
    (rotated : first.IsRotated second) : first = second := by
  obtain ⟨start, way, rfl, elementary, greater⟩ := (mem_cycles graph distinct).mp found
  obtain ⟨other, rest, rfl, -, otherGreater⟩ := (mem_cycles graph distinct).mp again
  -- Each of the two first names is the least one of the same names.
  have same : start = other := by
    have here := List.mem_cons.mp (rotated.mem_iff.mp (.head way))
    have there := List.mem_cons.mp (rotated.mem_iff.mpr (.head rest))
    rcases here with same | later
    · exact same
    · rcases there with same | back
      · exact same.symm
      · exact absurd (otherGreater start later) (greater other back).asymm
  subst same
  rw [eq_of_isRotated_cons (Cycle.nodup_coe_iff.mp elementary.distinct) rotated]

/-- Every elementary cycle is found, beginning with its least name. -/
theorem exists_mem_cycles (distinct : grammar.names.Nodup) {cycle : Cycle String}
    (elementary : grammar.IsElementary cycle) :
    ∃ found ∈ grammar.cycles, (found : Cycle String) = cycle := by
  obtain ⟨names, rfl⟩ : ∃ names : List String, (names : Cycle String) = cycle :=
    Quotient.exists_rep cycle
  have some : names ≠ [] := (Cycle.coe_eq_nil names).not.mp elementary.some
  obtain ⟨start, member, least⟩ := Finset.exists_min_image names.toFinset id
    ((List.toFinset_nonempty_iff names).mpr some)
  obtain ⟨way, same⟩ := exists_coe_cons (Cycle.mem_coe_iff.mpr (List.mem_toFinset.mp member))
  rw [same] at elementary
  refine ⟨start :: way, (mem_cycles graph distinct).mpr ⟨start, way, rfl, elementary, ?_⟩,
    same.symm⟩
  intro target listed
  have inside : target ∈ names := by
    rw [← Cycle.mem_coe_iff, same]
    exact .tail _ listed
  refine lt_of_le_of_ne (least target (List.mem_toFinset.mpr inside)) ?_
  rintro rfl
  exact (List.nodup_cons.mp (Cycle.nodup_coe_iff.mp elementary.distinct)).1 listed

/-- A rule is recursive when it lies on a cycle that is found. -/
theorem isRecursive_iff_mem_cycles (distinct : grammar.names.Nodup) :
    grammar.isRecursive name = true ↔ ∃ cycle ∈ grammar.cycles, name ∈ cycle := by
  rw [isRecursive_iff graph]
  constructor
  · rintro ⟨target, refers, leads⟩
    obtain ⟨way, chain, different, ends⟩ := exists_simple_way leads
    have closed : List.IsChain grammar.Refers (target :: way ++ [target]) := by
      refine List.isChain_append.mpr ⟨chain, List.isChain_singleton _, ?_⟩
      simp only [List.getLast?_eq_some_getLast (List.cons_ne_nil target way), ends,
        List.head?_cons, Option.mem_some_iff]
      rintro _ rfl _ rfl
      exact refers
    have elementary : grammar.IsElementary (target :: way : List String) :=
      ⟨(Cycle.coe_eq_nil _).not.mpr (List.cons_ne_nil _ _), Cycle.nodup_coe_iff.mpr different,
        (Cycle.chain_coe_cons _ _ _).mpr closed⟩
    obtain ⟨cycle, found, same⟩ := exists_mem_cycles graph distinct elementary
    refine ⟨cycle, found, ?_⟩
    rw [← Cycle.mem_coe_iff, same, Cycle.mem_coe_iff, ← ends]
    exact List.getLast_mem _
  · rintro ⟨cycle, found, member⟩
    obtain ⟨start, rest, rfl, elementary, -⟩ := (mem_cycles graph distinct).mp found
    obtain ⟨way, same⟩ := exists_coe_cons (Cycle.mem_coe_iff.mpr member)
    have chain := (Cycle.chain_coe_cons _ _ _).mp (same ▸ elementary.closed)
    cases way with
    | nil => exact ⟨name, List.isChain_pair.mp chain, .refl⟩
    | cons target way =>
      obtain ⟨refers, chain⟩ := List.isChain_cons_cons.mp chain
      refine ⟨target, refers, List.relationReflTransGen_of_exists_isChain_cons _ chain ?_⟩
      simp

end Graph

end RuleSet

/-- The cycles that are found among the references of a grammar. -/
structure EnumeratesCycles (grammar : RuleSet) : Prop where
  /-- Each is a list of different names, each of which refers to the next one, and the last one to
  the first. -/
  elementary : ∀ cycle ∈ grammar.cycles, grammar.IsElementary cycle
  /-- No two of them are rotations of each other. -/
  once : grammar.cycles.Pairwise fun first second => ¬ first.IsRotated second
  /-- Every elementary cycle is one of them, up to a rotation. -/
  all : ∀ cycle, grammar.IsElementary cycle → ∃ found ∈ grammar.cycles, (found : Cycle String) = cycle
  /-- A rule is recursive when it lies on one of them. -/
  recursive : ∀ name, grammar.isRecursive name = true ↔ ∃ cycle ∈ grammar.cycles, name ∈ cycle

/-- Of every accepted description exactly the elementary cycles of references are found, each of
them once. -/
theorem elementary_cycles_found {description : Entries Json} {delist : Bool} {grammar : RuleSet}
    (distinct : description.Distinct) (valid : validate description delist = .ok grammar) :
    EnumeratesCycles grammar := by
  have graph := graph_of_references distinct valid
  have differ : grammar.names.Nodup := graph.names ▸ distinct
  refine ⟨?_, ?_, fun cycle => RuleSet.exists_mem_cycles graph differ,
    fun name => RuleSet.isRecursive_iff_mem_cycles graph differ⟩
  · intro cycle found
    obtain ⟨start, way, rfl, elementary, -⟩ := (RuleSet.mem_cycles graph differ).mp found
    exact elementary
  · refine (RuleSet.nodup_cycles graph differ).imp_of_mem ?_
    intro first second found again different rotated
    exact different (RuleSet.eq_of_isRotated graph differ found again rotated)

/-- Three rules of which the second leads back at once and through the third, and the first one also
to itself. -/
def sharedCycles : Entries Json :=
  [("term", .obj [("choice", .arr [.str "term", .obj [("sequence", .arr [.str "group",
      .str "digit"])]])]),
    ("group", .obj [("sequence", .arr [.str "term", .obj [("zeroOrMore", .str "part")]])]),
    ("part", .obj [("zeroOrOne", .str "term")]),
    ("digit", .obj [("terminal", .str "digit")])]

/-- The grammar of the three rules. -/
def sharedCyclesGrammar : RuleSet :=
  ⟨[⟨"term", .choice [.reference "term", .sequence [.reference "group", .reference "digit"]],
      some false, true, none, none, ["term", "group", "digit"], ["term", "group", "part"]⟩,
    ⟨"group", .sequence [.reference "term", .quantified .zeroOrMore (.reference "part")], none, true,
      none, none, ["term", "part"], ["term"]⟩,
    ⟨"part", .quantified .zeroOrOne (.reference "term"), none, true, none, none, ["term"], ["group"]⟩,
    ⟨"digit", .terminal "digit", none, true, none, none, [], ["term"]⟩]⟩

/-- Cycles that share rules are found apart, and a rule that refers to itself is one of its own. -/
theorem shared_cycles_found :
    sharedCycles.Distinct ∧ validate sharedCycles false = .ok sharedCyclesGrammar ∧
      sharedCyclesGrammar.cycles = [["term"], ["group", "term"], ["group", "part", "term"]] ∧
      EnumeratesCycles sharedCyclesGrammar := by
  have distinct : sharedCycles.Distinct := by
    simp [Entries.Distinct, Entries.names, sharedCycles]
  have valid : validate sharedCycles false = .ok sharedCyclesGrammar := by cbv
  exact ⟨distinct, valid, by cbv, elementary_cycles_found distinct valid⟩

end GrammarView
