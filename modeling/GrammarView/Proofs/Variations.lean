import GrammarView.Proofs.Overlays
import GrammarView.Proofs.ReferenceGraph
import GrammarView.Proofs.Refusals

/-!
# Variations of a grammar

A description and a variation of it are validated over different names, but what one value stands
for depends only on the names that it refers to. Hence a rule that the overlay does not name is the
same in both grammars, and a variation of an accepted description can fail for two reasons only: a
body of the overlay is not well formed, or a rule that stays refers to one that goes.
-/

namespace GrammarView

namespace Validation

section Rescoping

variable {rule : String} {names further : List String} {delist : Bool}

/-- The reading of a list refers to its item, to what its separator refers to, and to its own rule
where it becomes a recursion. -/
theorem mem_references_listReading {scope : Scope} {whole : Bool} {item name : String}
    {separator : Reading} :
    name ∈ (listReading scope whole item separator).references ↔
      name = item ∨ name ∈ separator.references ∨
        (scope.delist = true ∧ whole = true ∧ name = scope.rule) := by
  unfold listReading
  cases scope.delist <;> cases whole <;> simp [keepList, delistRule, delistPart, or_comm]

/-- What a part stands for does not depend on the names that it does not refer to. -/
theorem Reads.rescope {whole : Bool} {values : List Json} {exprs : List Expr}
    {references : List String}
    (reads : Reads ⟨rule, names, delist⟩ whole values exprs references)
    (known : ∀ name ∈ references, name ∈ further) :
    Reads ⟨rule, further, delist⟩ whole values exprs references := by
  induction reads with
  | nil => exact .nil
  | cons first remaining firstReads remainingReads =>
    obtain ⟨knownFirst, knownOthers⟩ := List.forall_mem_append.mp known
    exact .cons (firstReads knownFirst) (remainingReads knownOthers)
  | reference member => exact .reference (known _ (.head _))
  | leaf single tag => exact .leaf single tag
  | tokens single tag => exact .tokens single tag
  | sequence single tag parts inductionHypothesis =>
    exact .sequence single tag (inductionHypothesis known)
  | choice single tag parts inductionHypothesis =>
    exact .choice single tag (inductionHypothesis known)
  | quantified single tag part inductionHypothesis =>
    exact .quantified single tag (inductionHypothesis known)
  | list single tag separated part member recursive inductionHypothesis =>
    have item := known _ (mem_references_listReading.mpr (.inl rfl))
    have between := fun name inside =>
      known name (mem_references_listReading.mpr (.inr (.inl inside)))
    have own := fun delisted body =>
      known rule (mem_references_listReading.mpr (.inr (.inr ⟨delisted, body, rfl⟩)))
    exact .list single tag separated (inductionHypothesis between) item own

variable {name : String} {value : Json} {given other : Rule}

/-- A rule refers only to known names. -/
theorem ReadsRule.known (reads : ReadsRule names delist name value given) :
    ∀ target ∈ given.references, target ∈ names := by
  cases reads with
  | rule body =>
    intro target recorded
    exact body.known target (List.mem_eraseDups.mp recorded)

/-- What a description stands for does not depend on the names that it does not refer to. -/
theorem ReadsRule.rescope (reads : ReadsRule names delist name value given)
    (known : ∀ target ∈ given.references, target ∈ further) :
    ReadsRule further delist name value given := by
  cases reads with
  | rule body inlineFlags railroadFlag leftMargin rightMargin referrers =>
    have recorded := fun target inside => known target (List.mem_eraseDups.mpr inside)
    exact .rule (body.rescope recorded) inlineFlags railroadFlag leftMargin rightMargin referrers

/-- A description stands for the same rule wherever it stands for one, whatever rules refer to
it. -/
theorem ReadsRule.same (first : ReadsRule names delist name value given)
    (second : ReadsRule further delist name value other) : given.byItself = other.byItself := by
  have all : ReadsRule (names ++ further) delist name value given :=
    first.rescope fun target inside => List.mem_append_left further (first.known target inside)
  have again : ReadsRule (names ++ further) delist name value other :=
    second.rescope fun target inside => List.mem_append_right names (second.known target inside)
  have read : readRule (names ++ further) delist name value = .ok given.byItself :=
    readRule_eq_ok.mpr ⟨all.refill [], rfl⟩
  have readAgain : readRule (names ++ further) delist name value = .ok other.byItself :=
    readRule_eq_ok.mpr ⟨again.refill [], rfl⟩
  exact Except.ok.inj (read.symm.trans readAgain)

/-- Where the margins fit, a value describes a rule exactly when it stands for one. -/
theorem describesRule_iff (own : name ∈ names) (fits : MarginsFit value) (delist : Bool) :
    DescribesRule names value ↔ ∃ rule, ReadsRule names delist name value rule := by
  have readable : (∃ rule, readRule names delist name value = .ok rule) ↔
      DescribesRule names value ∧ MarginsFit value := exists_readRule_iff own
  simp only [readRule_eq_ok, fits, and_true] at readable
  rw [← readable]
  constructor
  · rintro ⟨rule, reads, -⟩
    exact ⟨rule, reads⟩
  · rintro ⟨rule, reads⟩
    exact ⟨rule.byItself, reads.refill [], rfl⟩

end Rescoping

/-- Rules whose margins fit are read together, or there is a diagnostic. -/
theorem validate_outcome {description : Entries Json}
    (fits : ∀ entry ∈ description, MarginsFit entry.2) (delist : Bool) :
    (∃ grammar, validate description delist = .ok grammar ∧
        ∀ entry ∈ description, DescribesRule description.names entry.2) ∨
      ∃ diagnostic, validate description delist = .error (.malformed diagnostic) ∧
        ¬ ∀ entry ∈ description, DescribesRule description.names entry.2 := by
  have own : ∀ entry ∈ description, entry.1 ∈ description.names :=
    fun _ member => List.mem_map_of_mem member
  rcases readRules_outcome delist own fits with
    ⟨rules, read, all⟩ | ⟨diagnostic, bad, before, value, after, entries, -, malformed⟩
  · exact .inl ⟨_, map_eq_ok.mpr ⟨rules, read, rfl⟩, all⟩
  · refine .inr ⟨diagnostic, ?_, fun all => malformed ?_⟩
    · rw [validate, bad]
      rfl
    · exact all (diagnostic.rule, value) (entries ▸ List.mem_append_right before (.head after))

end Validation

/-- Exactly the accepted descriptions are made into a rule set, and nothing is reported then. -/
theorem construct_eq_some {description : Entries Json} {delist : Bool} {grammar : RuleSet}
    {notices : List Notice} :
    construct description delist = .ok ⟨some grammar, notices⟩ ↔
      validate description delist = .ok grammar ∧ notices = [] := by
  unfold construct
  cases validate description delist with
  | ok rules => simp [eq_comm]
  | error failure => cases failure <;> simp

namespace RuleSet

/-- How the grammar of a varied description comes from the grammar of the description. -/
structure Varies (overlay : Entries Json) (delist : Bool) (grammar varied : RuleSet) :
    Prop where
  /-- The remaining rules stand in their order, and then the new ones in that of the overlay. -/
  names : varied.names =
    (grammar.names.filter fun name => !Source.deletes overlay name)
      ++ overlay.names.filter fun name =>
        !Source.deletes overlay name && !grammar.names.contains name
  /-- A rule of which the overlay says nothing stays as it is by itself: its body, its settings, and
  the references that are recorded for it, in their order. -/
  untouched : ∀ name ∉ overlay.names,
    (varied.get? name).map Rule.byItself = (grammar.get? name).map Rule.byItself
  /-- A rule to which the overlay gives a body is what this stands for. -/
  changed : ∀ name body, (name, body) ∈ overlay → body ≠ .null →
    ∃ rule, varied.get? name = some rule ∧
      Validation.ReadsRule varied.names delist name body rule
  /-- To a rule refer those of its referrers of which the overlay says nothing, and the changed
  rules in whose bodies it occurs. -/
  referrers : ∀ name other, other ∈ varied.referrers name ↔
    (other ∉ overlay.names ∧ other ∈ grammar.referrers name) ∨
      (other ∈ overlay.names ∧ ∃ rule, varied.get? other = some rule ∧ name ∈ rule.body.targets)
  /-- Every rule keeps the names of the rules that refer to it in the varied grammar. -/
  kept : varied.Indexed

section Readings

variable {description : Entries Json} {delist : Bool} {grammar : RuleSet}

/-- Under a name that no rule has no rule is found. -/
theorem get?_eq_none_iff {name : String} : grammar.get? name = none ↔ name ∉ grammar.names := by
  rw [get?, List.find?_eq_none, names, List.mem_map]
  constructor
  · rintro other ⟨rule, member, rfl⟩
    exact other rule member (beq_self_eq_true rule.name)
  · intro absent rule member same
    exact absent ⟨rule, member, beq_iff_eq.mp same⟩

/-- The rule that an entry of an accepted description stands for is found under its name. -/
theorem get?_of_entry (distinct : description.Distinct)
    (valid : validate description delist = .ok grammar) {name : String} {value : Json}
    (member : (name, value) ∈ description) :
    ∃ rule, grammar.get? name = some rule ∧
      Validation.ReadsRule description.names delist name value rule := by
  have known : name ∈ grammar.names := by
    rw [names_of_validate valid]
    exact List.mem_map_of_mem member
  obtain ⟨rule, found⟩ := exists_get? known
  obtain ⟨listed, same⟩ := get?_eq_some found
  obtain ⟨⟨other, description⟩, entry, reads⟩ :=
    Validation.exists_left_of_mem (reads_of_validate valid) listed
  obtain rfl : name = other := same.symm.trans reads.name_eq
  obtain rfl : description = value := by
    have first := (Entries.get?_eq_some_iff distinct).mpr entry
    have second := (Entries.get?_eq_some_iff distinct).mpr member
    exact Option.some.inj (first.symm.trans second)
  exact ⟨rule, found, reads⟩

/-- A rule refers to a name exactly when the name occurs in its body. -/
theorem mem_referrers_iff (distinct : description.Distinct)
    (valid : validate description delist = .ok grammar) {name other : String} :
    other ∈ grammar.referrers name ↔
      ∃ rule, grammar.get? other = some rule ∧ name ∈ rule.body.targets := by
  have differ : grammar.names.Nodup := names_of_validate valid ▸ distinct
  rw [mem_referrers, mem_edges]
  constructor
  · rintro ⟨rule, member, rfl, recorded⟩
    have inside := ((recorded_of_validate valid member).2 name).mp recorded
    exact ⟨rule, get?_of_mem differ member, inside⟩
  · rintro ⟨rule, found, inside⟩
    obtain ⟨member, same⟩ := get?_eq_some found
    exact ⟨rule, member, same, ((recorded_of_validate valid member).2 name).mpr inside⟩

end Readings

section Variations

variable {base overlay : Entries Json} {delist : Bool} {grammar varied : RuleSet}

/-- The grammar of a varied description comes from the grammar of the description. -/
theorem varies_of_validate (baseDistinct : base.Distinct) (distinct : overlay.Distinct)
    (valid : validate base delist = .ok grammar)
    (validVaried : validate (Source.applyOverlay base overlay) delist = .ok varied) :
    Varies overlay delist grammar varied := by
  have member {name : String} {value : Json} :
      (name, value) ∈ Source.applyOverlay base overlay ↔
        (name ∉ overlay.names ∧ (name, value) ∈ base) ∨
          ((name, value) ∈ overlay ∧ value ≠ .null) :=
    Source.mem_applyOverlay baseDistinct distinct
  have variedDistinct := Source.distinct_applyOverlay baseDistinct distinct
  have names := names_of_validate valid
  have variedNames := names_of_validate validVaried
  have untouched : ∀ name ∉ overlay.names,
      (varied.get? name).map Rule.byItself = (grammar.get? name).map Rule.byItself := by
    intro name fresh
    by_cases known : name ∈ base.names
    · obtain ⟨⟨_, value⟩, entry, rfl⟩ := List.mem_map.mp known
      obtain ⟨rule, found, reads⟩ := get?_of_entry baseDistinct valid entry
      obtain ⟨again, foundAgain, readsAgain⟩ :=
        get?_of_entry variedDistinct validVaried (member.mpr (.inl ⟨fresh, entry⟩))
      rw [found, foundAgain, Option.map_some, Option.map_some, reads.same readsAgain]
    · have absent : name ∉ (Source.applyOverlay base overlay).names := by
        rw [Source.mem_names_applyOverlay baseDistinct distinct]
        exact fun inside => inside.2.elim known fresh
      rw [get?_eq_none_iff.mpr (variedNames ▸ absent), get?_eq_none_iff.mpr (names ▸ known)]
  refine ⟨?_, untouched, ?_, ?_, indexed_of_validate validVaried⟩
  · rw [variedNames, Source.names_applyOverlay baseDistinct distinct, names]
    simp only [Entries.has_eq_contains]
  · intro name body changed given
    have entry := member.mpr (.inr ⟨changed, given⟩)
    rw [variedNames]
    exact get?_of_entry variedDistinct validVaried entry
  · intro name other
    rw [mem_referrers_iff variedDistinct validVaried, mem_referrers_iff baseDistinct valid]
    by_cases fresh : other ∈ overlay.names
    · simp [fresh]
    · have occurs (grammar : RuleSet) : (∃ rule, grammar.get? other = some rule ∧
          name ∈ rule.body.targets) ↔
            ∃ rule, (grammar.get? other).map Rule.byItself = some rule ∧
              name ∈ rule.body.targets := by
        simp [Rule.byItself]
      simp only [fresh, not_false_eq_true, true_and, false_and, or_false]
      rw [occurs varied, occurs grammar, untouched other fresh]

/-- The margins of an accepted description fit. -/
theorem fits_of_validate (baseDistinct : base.Distinct)
    (valid : validate base delist = .ok grammar) :
    ∀ entry ∈ base, Validation.MarginsFit entry.2 := by
  intro entry member
  obtain ⟨rule, -, reads⟩ := get?_of_entry baseDistinct valid member
  exact reads.marginsFit

/-- Every value of an accepted description describes a rule. -/
theorem describes_of_validate (baseDistinct : base.Distinct)
    (valid : validate base delist = .ok grammar) :
    ∀ entry ∈ base, Validation.DescribesRule base.names entry.2 := by
  intro entry member
  obtain ⟨rule, -, reads⟩ := get?_of_entry baseDistinct valid member
  have own : entry.1 ∈ base.names := List.mem_map_of_mem member
  exact (Validation.describesRule_iff own reads.marginsFit delist).mpr ⟨rule, reads⟩

/-- What is left of the rules can be taken over exactly when it refers to nothing that is taken
away. -/
theorem describes_variation_iff (baseDistinct : base.Distinct) (distinct : overlay.Distinct)
    (valid : validate base delist = .ok grammar) :
    (∀ entry ∈ Source.applyOverlay base overlay,
        Validation.DescribesRule (Source.applyOverlay base overlay).names entry.2) ↔
      (∀ name body, (name, body) ∈ overlay → body ≠ .null →
          Validation.DescribesRule (Source.applyOverlay base overlay).names body) ∧
        ∀ rule ∈ grammar.rules, rule.name ∉ overlay.names →
          ∀ target ∈ rule.body.targets, overlay.get? target ≠ some .null := by
  have member {name : String} {value : Json} :
      (name, value) ∈ Source.applyOverlay base overlay ↔
        (name ∉ overlay.names ∧ (name, value) ∈ base) ∨
          ((name, value) ∈ overlay ∧ value ≠ .null) :=
    Source.mem_applyOverlay baseDistinct distinct
  have remains {name : String} :
      name ∈ (Source.applyOverlay base overlay).names ↔
        overlay.get? name ≠ some .null ∧ (name ∈ base.names ∨ name ∈ overlay.names) :=
    Source.mem_names_applyOverlay baseDistinct distinct
  have differ : grammar.names.Nodup := names_of_validate valid ▸ baseDistinct
  constructor
  · intro described
    refine ⟨fun name body changed given => ?_, fun rule listed fresh target inside => ?_⟩
    · exact described (name, body) (member.mpr (.inr ⟨changed, given⟩))
    · have known : rule.name ∈ base.names := by
        rw [← names_of_validate valid]
        exact List.mem_map_of_mem listed
      obtain ⟨⟨name, value⟩, entry, same⟩ := List.mem_map.mp known
      obtain rfl : name = rule.name := same
      obtain ⟨found, hit, reads⟩ := get?_of_entry baseDistinct valid entry
      obtain rfl : rule = found := Option.some.inj ((get?_of_mem differ listed).symm.trans hit)
      have remaining := member.mpr (.inl ⟨fresh, entry⟩)
      have own : rule.name ∈ (Source.applyOverlay base overlay).names :=
        List.mem_map_of_mem remaining
      obtain ⟨again, readsAgain⟩ :=
        (Validation.describesRule_iff own reads.marginsFit delist).mp (described _ remaining)
      have recorded := ((recorded_of_validate valid listed).2 target).mpr inside
      have same : rule.byItself.references = again.byItself.references :=
        congrArg Rule.references (reads.same readsAgain)
      exact (remains.mp (readsAgain.known target (same ▸ recorded))).1
  · rintro ⟨changed, untouched⟩ ⟨name, value⟩ inside
    rcases member.mp inside with ⟨fresh, entry⟩ | ⟨entry, given⟩
    · obtain ⟨rule, found, reads⟩ := get?_of_entry baseDistinct valid entry
      obtain ⟨listed, rfl⟩ := get?_eq_some found
      have own : rule.name ∈ (Source.applyOverlay base overlay).names :=
        List.mem_map_of_mem inside
      refine (Validation.describesRule_iff own reads.marginsFit delist).mpr ⟨rule, ?_⟩
      refine reads.rescope fun target recorded => ?_
      have occurs := ((recorded_of_validate valid listed).2 target).mp recorded
      have stays := untouched rule listed fresh target occurs
      exact remains.mpr ⟨stays, .inl (reads.known target recorded)⟩
    · exact changed name value entry given

end Variations

end RuleSet

/-- A variation of an accepted description is a grammar exactly when what the overlay puts in is
well formed among the remaining names and what it leaves alone refers to nothing that it takes
away, and then it is the grammar of the description but for what the overlay says. -/
theorem variations_compose {base overlay : Entries Json} (baseDistinct : base.Distinct)
    (distinct : overlay.Distinct) {mode : Bool} {given : RuleSet}
    (accepted : validate base mode = .ok given)
    (fits : ∀ entry ∈ overlay, Validation.MarginsFit entry.2) (delist : Bool) :
    ∃ grammar, validate base delist = .ok grammar ∧
      ((∃ varied notices,
          construct (Source.applyOverlay base overlay) delist = .ok ⟨some varied, notices⟩) ↔
        (∀ name body, (name, body) ∈ overlay → body ≠ .null →
          Validation.DescribesRule (Source.applyOverlay base overlay).names body) ∧
        ∀ rule ∈ grammar.rules, rule.name ∉ overlay.names →
          ∀ target ∈ rule.body.targets, overlay.get? target ≠ some .null) ∧
      ((¬ ∃ varied notices,
          construct (Source.applyOverlay base overlay) delist = .ok ⟨some varied, notices⟩) →
        ∃ diagnostic, construct (Source.applyOverlay base overlay) delist =
          .ok ⟨none, [.diagnostic diagnostic]⟩) ∧
      ∀ varied notices,
        construct (Source.applyOverlay base overlay) delist = .ok ⟨some varied, notices⟩ →
        RuleSet.Varies overlay delist grammar varied := by
  have baseFits := RuleSet.fits_of_validate baseDistinct accepted
  have baseDescribed := RuleSet.describes_of_validate baseDistinct accepted
  obtain ⟨grammar, valid, -⟩ | ⟨diagnostic, -, malformed⟩ :=
    Validation.validate_outcome baseFits delist
  case inr => exact absurd baseDescribed malformed
  have variedFits : ∀ entry ∈ Source.applyOverlay base overlay,
      Validation.MarginsFit entry.2 := by
    rintro ⟨name, value⟩ inside
    rcases (Source.mem_applyOverlay baseDistinct distinct).mp inside with ⟨-, entry⟩ | ⟨entry, -⟩
    · exact baseFits (name, value) entry
    · exact fits (name, value) entry
  refine ⟨grammar, valid, ?_, ?_, ?_⟩
  · rw [← RuleSet.describes_variation_iff baseDistinct distinct valid]
    simp only [construct_eq_some]
    constructor
    · rintro ⟨varied, _, validVaried, -⟩
      exact RuleSet.describes_of_validate (Source.distinct_applyOverlay baseDistinct distinct)
        validVaried
    · intro described
      obtain ⟨varied, validVaried, -⟩ | ⟨diagnostic, -, malformed⟩ :=
        Validation.validate_outcome variedFits delist
      · exact ⟨varied, [], validVaried, rfl⟩
      · exact absurd described malformed
  · intro refused
    obtain ⟨varied, validVaried, -⟩ | ⟨diagnostic, bad, -⟩ :=
      Validation.validate_outcome variedFits delist
    · exact absurd ⟨varied, [], construct_eq_some.mpr ⟨validVaried, rfl⟩⟩ refused
    · exact ⟨diagnostic, by rw [construct, bad]⟩
  · intro varied notices made
    exact RuleSet.varies_of_validate baseDistinct distinct valid (construct_eq_some.mp made).1

/-- A list of words with blanks between them, the words made of letters and digits. -/
def wordList : Entries Json :=
  [("words", .obj [("list", .str "word"), ("separator", .obj [("zeroOrMore", .str "blank")])]),
    ("word", .obj [("choice", .arr [.str "letter", .str "digit"])]),
    ("blank", .obj [("token", .str " ")]),
    ("letter", .obj [("terminal", .str "a letter")]),
    ("digit", .obj [("terminal", .str "a digit")])]

/-- The grammar of a list of words, the list read as a recursion. -/
def wordListGrammar : RuleSet :=
  ⟨[⟨"words", .choice [.reference "word", .sequence [.reference "words",
        .quantified .zeroOrMore (.reference "blank"), .reference "word"]],
      some false, true, none, none, ["word", "blank", "words"], ["words"]⟩,
    ⟨"word", .choice [.reference "letter", .reference "digit"], some false, true, none, none,
      ["letter", "digit"], ["words"]⟩,
    ⟨"blank", .token " ", none, true, none, none, [], ["words"]⟩,
    ⟨"letter", .terminal "a letter", none, true, none, none, [], ["word"]⟩,
    ⟨"digit", .terminal "a digit", none, true, none, none, [], ["word"]⟩]⟩

/-- An overlay that puts words in brackets and does away with digits. -/
def bracketed : Entries Json :=
  [("digit", .null),
    ("word", .obj [("sequence", .arr [.obj [("token", .str "[")], .str "letter", .str "bracket"])]),
    ("bracket", .obj [("token", .str "]"), ("left", .int 2), ("inline", .bool true)])]

/-- Words lose their digits and get brackets, and the list of them stays what it was. -/
theorem bracketed_words :
    wordList.Distinct ∧ bracketed.Distinct ∧ validate wordList true = .ok wordListGrammar ∧
      (∀ entry ∈ bracketed, Validation.MarginsFit entry.2) ∧
      ∃ varied, construct (Source.applyOverlay wordList bracketed) true = .ok ⟨some varied, []⟩ ∧
        RuleSet.Varies bracketed true wordListGrammar varied := by
  have baseDistinct : wordList.Distinct := by
    simp [Entries.Distinct, Entries.names, wordList]
  have distinct : bracketed.Distinct := by
    simp [Entries.Distinct, Entries.names, bracketed]
  have valid : validate wordList true = .ok wordListGrammar := by cbv
  have fits : ∀ entry ∈ bracketed, Validation.MarginsFit entry.2 := by
    have two : FitsDouble 2 := by decide +kernel
    intro entry member setting listed number found
    simp only [bracketed, List.mem_cons, List.not_mem_nil, or_false] at member listed
    rcases member with rfl | rfl | rfl <;> rcases listed with rfl | rfl <;>
      simp [Validation.membersOf, Entries.get?] at found
    exact found ▸ two
  refine ⟨baseDistinct, distinct, valid, fits, ?_⟩
  obtain ⟨grammar, delisted, exactly, -, varies⟩ :=
    variations_compose baseDistinct distinct valid fits true
  obtain rfl : wordListGrammar = grammar := Except.ok.inj (valid.symm.trans delisted)
  have names : (Source.applyOverlay wordList bracketed).names =
      ["words", "word", "blank", "letter", "bracket"] := by cbv
  have formed : ∀ name body, (name, body) ∈ bracketed → body ≠ .null →
      Validation.DescribesRule (Source.applyOverlay wordList bracketed).names body := by
    rw [names]
    intro name body changed given
    simp only [bracketed, List.mem_cons, List.not_mem_nil, or_false, Prod.mk.injEq] at changed
    rcases changed with ⟨-, rfl⟩ | ⟨-, rfl⟩ | ⟨-, rfl⟩
    · contradiction
    · refine ⟨.parts (by cbv) (.head _) ?_, ?_, ?_, ?_, ?_, ?_⟩
      case refine_1 =>
        intro value member
        simp only [List.mem_cons, List.not_mem_nil, or_false] at member
        rcases member with rfl | rfl | rfl
        · exact .text (by cbv) (.head _)
        · exact .name (by simp)
        · exact .name (by simp)
      all_goals simp [Validation.IsFlag, Validation.IsMargin, Validation.membersOf, Entries.get?]
    · refine ⟨.text (by cbv) (.head _), ?_, ?_, ?_, ?_, ?_⟩
      all_goals simp [Validation.IsFlag, Validation.IsMargin, Validation.membersOf, Entries.get?]
  have stays : ∀ rule ∈ wordListGrammar.rules, rule.name ∉ bracketed.names →
      ∀ target ∈ rule.body.targets, bracketed.get? target ≠ some .null := by
    have mark : (Expr.token " ").targets = [] := rfl
    have sort : (Expr.terminal "a letter").targets = [] := rfl
    simp [wordListGrammar, bracketed, Entries.names, Entries.get?, mark, sort, Expr.targets_choice,
      Expr.targets_sequence, Expr.targets_quantified, Expr.targets_reference]
  obtain ⟨varied, notices, made⟩ := exactly.mpr ⟨formed, stays⟩
  obtain rfl := (construct_eq_some.mp made).2
  exact ⟨varied, made, varies varied [] made⟩

end GrammarView
