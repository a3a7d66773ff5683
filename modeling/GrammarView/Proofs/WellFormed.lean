import GrammarView.Proofs.Descriptions
import GrammarView.Proofs.Doubles
import Mathlib

/-!
# Well-formed descriptions

The documented form of a description, said without the reader: which values stand for a body, which
for a part inside one, and which settings a rule may have beside its tag. A description is accepted
exactly when all its rules have this form, however lists are read, and otherwise the diagnostic
names the first rule that has not.
-/

namespace GrammarView

namespace Validation

/-- The values that stand for an expression. Only inside a body may a name stand for itself;
everything else is an object with one tag. -/
inductive WellFormed (names : List String) : (inside : Bool) → Json → Prop where
  | name {target} (known : target ∈ names) : WellFormed names true (.str target)
  | text {inside members word text} (single : tagged members = [(word, .str text)])
      (tag : word ∈ ["token", "terminal", "alias", "rule"]) : WellFormed names inside (.obj members)
  | texts {inside members} {texts : List String}
      (single : tagged members = [("tokens", .arr (texts.map .str))]) :
      WellFormed names inside (.obj members)
  | parts {inside members word values} (single : tagged members = [(word, .arr values)])
      (tag : word ∈ ["sequence", "choice"])
      (parts : ∀ value ∈ values, WellFormed names true value) :
      WellFormed names inside (.obj members)
  | part {inside members word value} (single : tagged members = [(word, value)])
      (tag : word ∈ ["zeroOrOne", "zeroOrMore", "oneOrMore"])
      (part : WellFormed names true value) : WellFormed names inside (.obj members)
  | list {inside members item between} (single : tagged members = [("list", .str item)])
      (known : item ∈ names) (separated : Entries.get? members "separator" = some between)
      (separator : WellFormed names false between) : WellFormed names inside (.obj members)

section Words

variable {word : String} {tag : Tag}

/-- A word has the tag that stands beside it in the table. -/
theorem ofWord?_eq_some : Tag.ofWord? word = some tag ↔ (word, tag) ∈ Tag.table := by
  constructor
  · intro found
    obtain ⟨before, after, table, -⟩ := List.lookup_eq_some_iff.mp found
    rw [table]
    exact List.mem_append_right before (.head after)
  · intro listed
    simp only [Tag.table, List.mem_cons, Prod.mk.injEq, List.not_mem_nil, or_false] at listed
    rcases listed with ⟨rfl, rfl⟩ | ⟨rfl, rfl⟩ | ⟨rfl, rfl⟩ | ⟨rfl, rfl⟩ | ⟨rfl, rfl⟩ | ⟨rfl, rfl⟩ |
      ⟨rfl, rfl⟩ | ⟨rfl, rfl⟩ | ⟨rfl, rfl⟩ | ⟨rfl, rfl⟩ | ⟨rfl, rfl⟩ <;> rfl

/-- Four words hold one text. -/
theorem ofWord?_leaf :
    (∃ leaf, Tag.ofWord? word = some (.leaf leaf)) ↔
      word ∈ ["token", "terminal", "alias", "rule"] := by
  simp only [ofWord?_eq_some]
  constructor
  · rintro ⟨leaf, listed⟩
    cases leaf <;> simp_all [Tag.table]
  · simp only [List.mem_cons, List.not_mem_nil, or_false]
    rintro (rfl | rfl | rfl | rfl) <;> simp [Tag.table]

/-- Three words are quantifiers. -/
theorem ofWord?_quantified :
    (∃ quantifier, Tag.ofWord? word = some (.quantified quantifier)) ↔
      word ∈ ["zeroOrOne", "zeroOrMore", "oneOrMore"] := by
  simp only [ofWord?_eq_some]
  constructor
  · rintro ⟨quantifier, listed⟩
    cases quantifier <;> simp_all [Tag.table]
  · simp only [List.mem_cons, List.not_mem_nil, or_false]
    rintro (rfl | rfl | rfl) <;> simp [Tag.table]

/-- One word holds several texts. -/
theorem ofWord?_tokens : Tag.ofWord? word = some .tokens ↔ word = "tokens" := by
  simp [ofWord?_eq_some, Tag.table]

/-- Two words hold several parts. -/
theorem ofWord?_parts :
    Tag.ofWord? word = some .sequence ∨ Tag.ofWord? word = some .choice ↔
      word ∈ ["sequence", "choice"] := by
  simp [ofWord?_eq_some, Tag.table]

/-- One word holds the name of an item. -/
theorem ofWord?_list : Tag.ofWord? word = some .list ↔ word = "list" := by
  simp [ofWord?_eq_some, Tag.table]

end Words

section Bodies

variable {names : List String} {inside : Bool} {value : Json}

/-- Every value of a body but a name is an object. -/
theorem WellFormed.exists_members (body : WellFormed names false value) :
    ∃ members, value = .obj members := by
  cases body <;> exact ⟨_, rfl⟩

/-- An object may stand inside a body where it may be one. -/
theorem WellFormed.obj {members : Entries Json} (object : WellFormed names inside (.obj members))
    (further : Bool) : WellFormed names further (.obj members) := by
  cases object with
  | text single tag => exact .text single tag
  | texts single => exact .texts single
  | parts single tag parts => exact .parts single tag parts
  | part single tag part => exact .part single tag part
  | list single known separated separator => exact .list single known separated separator

/-- Values that stand for expressions are well formed. -/
theorem Reads.wellFormed {scope : Scope} {whole : Bool} {values : List Json} {exprs : List Expr}
    {references : List String} (reads : Reads scope whole values exprs references) :
    ∀ value ∈ values, WellFormed scope.names (!whole) value := by
  induction reads with
  | nil => exact nofun
  | cons first remaining firstFormed remainingFormed =>
    intro value member
    rcases List.mem_cons.mp member with rfl | later
    · exact firstFormed value (.head _)
    · exact remainingFormed value later
  | reference known => exact List.forall_mem_singleton.mpr (.name known)
  | leaf single tag =>
    exact List.forall_mem_singleton.mpr (.text single (ofWord?_leaf.mp ⟨_, tag⟩))
  | tokens single tag =>
    obtain rfl := ofWord?_tokens.mp tag
    exact List.forall_mem_singleton.mpr (.texts single)
  | sequence single tag parts inductionHypothesis =>
    have word := ofWord?_parts.mp (.inl tag)
    exact List.forall_mem_singleton.mpr (.parts single word inductionHypothesis)
  | choice single tag parts inductionHypothesis =>
    have word := ofWord?_parts.mp (.inr tag)
    exact List.forall_mem_singleton.mpr (.parts single word inductionHypothesis)
  | quantified single tag part inductionHypothesis =>
    have word := ofWord?_quantified.mp ⟨_, tag⟩
    have inner := List.forall_mem_singleton.mp inductionHypothesis
    exact List.forall_mem_singleton.mpr (.part single word inner)
  | list single tag separated part known recursive inductionHypothesis =>
    obtain rfl := ofWord?_list.mp tag
    have separator := (List.forall_mem_singleton.mp inductionHypothesis).obj false
    exact List.forall_mem_singleton.mpr (.list single known separated separator)

/-- Parts that stand for expressions one by one stand for expressions together. -/
theorem Reads.of_forall {scope : Scope} {values : List Json}
    (parts : ∀ value ∈ values, ∃ expr references, Reads scope false [value] [expr] references) :
    ∃ exprs references, Reads scope false values exprs references := by
  induction values with
  | nil => exact ⟨[], [], .nil⟩
  | cons value rest inductionHypothesis =>
    obtain ⟨first, others⟩ := List.forall_mem_cons.mp parts
    obtain ⟨expr, references, reads⟩ := first
    obtain ⟨exprs, further, remaining⟩ := inductionHypothesis others
    exact ⟨expr :: exprs, references ++ further, .cons reads remaining⟩

/-- A well-formed value stands for an expression, as a body as well as inside one if it is no
name. -/
theorem WellFormed.reads {scope : Scope} (own : scope.rule ∈ scope.names)
    (formed : WellFormed scope.names inside value) (whole : Bool)
    (fitting : whole = true → inside = false) :
    ∃ expr references, Reads scope whole [value] [expr] references := by
  induction formed generalizing whole with
  | name known =>
    cases whole with
    | false => exact ⟨_, _, .reference known⟩
    | true => exact nomatch fitting rfl
  | text single tag =>
    obtain ⟨leaf, found⟩ := ofWord?_leaf.mpr tag
    exact ⟨_, _, .leaf single found⟩
  | texts single => exact ⟨_, _, .tokens single (ofWord?_tokens.mpr rfl)⟩
  | parts single tag parts inductionHypothesis =>
    obtain ⟨exprs, references, reads⟩ :=
      Reads.of_forall fun value member => inductionHypothesis value member false nofun
    rcases ofWord?_parts.mpr tag with sequence | choice
    · exact ⟨_, _, .sequence single sequence reads⟩
    · exact ⟨_, _, .choice single choice reads⟩
  | part single tag part inductionHypothesis =>
    obtain ⟨quantifier, found⟩ := ofWord?_quantified.mpr tag
    obtain ⟨expr, references, reads⟩ := inductionHypothesis false nofun
    exact ⟨_, _, .quantified single found reads⟩
  | list single known separated separator inductionHypothesis =>
    obtain ⟨members, rfl⟩ := separator.exists_members
    obtain ⟨expr, references, reads⟩ := inductionHypothesis false nofun
    have found := ofWord?_list.mpr rfl
    exact ⟨_, _, .list single found separated reads known fun _ _ => own⟩

/-- The reader accepts exactly the well-formed bodies. -/
theorem exists_readNode_iff {scope : Scope} (own : scope.rule ∈ scope.names) {value : Json} :
    (∃ reading, readNode scope true value = .ok reading) ↔ WellFormed scope.names false value := by
  simp only [readNode_eq_ok]
  constructor
  · rintro ⟨reading, members, rfl, reads⟩
    exact reads.wellFormed _ (.head _)
  · intro formed
    obtain ⟨members, rfl⟩ := formed.exists_members
    obtain ⟨expr, references, reads⟩ := formed.reads own true fun _ => rfl
    exact ⟨⟨expr, references⟩, members, rfl, reads⟩

end Bodies

section Settings

variable {members : Entries Json} {setting : String}

/-- A setting that is absent or null. -/
def Unset (members : Entries Json) (setting : String) : Prop :=
  ∀ value, members.get? setting = some value → value = .null

/-- A setting that is absent, null, true or false. -/
def IsFlag (members : Entries Json) (setting : String) : Prop :=
  ∀ value, members.get? setting = some value → value = .null ∨ ∃ flag, value = .bool flag

/-- A setting that is absent, null, or a number. -/
def IsMargin (members : Entries Json) (setting : String) : Prop :=
  ∀ value, members.get? setting = some value →
    value = .null ∨ (∃ number, value = .int number) ∨ ∃ number, value = .real number

/-- Exactly the flags are read as such. -/
theorem exists_readFlag_iff :
    (∃ flag, readFlag members setting = .ok flag) ↔ IsFlag members setting := by
  unfold readFlag IsFlag
  cases found : members.get? setting with
  | none => simp
  | some value => cases value <;> simp

/-- Nothing is read from a flag exactly when it is not set. -/
theorem isNone_of_readFlag {flag : Option Bool} (read : readFlag members setting = .ok flag) :
    flag.isNone ↔ Unset members setting := by
  unfold readFlag at read
  unfold Unset
  cases found : members.get? setting with
  | none =>
    cases flag with
    | none => simp
    | some given => simp [found] at read
  | some value =>
    cases value with
    | null => simp_all
    | bool given =>
      obtain rfl : some given = flag := by simpa [found] using read
      simp
    | _ => simp [found] at read

/-- A continued outcome can be a success when the outcome is one from which to go on. -/
theorem exists_bind_iff {α β ε : Type} {outcome : Except ε α} {next : α → Except ε β} :
    (∃ result, outcome >>= next = .ok result) ↔
      ∃ value, outcome = .ok value ∧ ∃ result, next value = .ok result := by
  simp only [bind_eq_ok]
  constructor
  · rintro ⟨result, value, read, further⟩
    exact ⟨value, read, result, further⟩
  · rintro ⟨value, read, result, further⟩
    exact ⟨result, value, read, further⟩

/-- Whether a rule is shown in place can be read exactly when the setting that counts is a flag. -/
theorem exists_readInline_iff :
    (∃ inlined, readInline members = .ok inlined) ↔
      IsFlag members "inline" ∧ (Unset members "inline" → IsFlag members "collapse") := by
  rw [readInline, exists_bind_iff]
  constructor
  · rintro ⟨first, inline, further⟩
    refine ⟨exists_readFlag_iff.mp ⟨first, inline⟩, fun unset => ?_⟩
    rw [if_pos ((isNone_of_readFlag inline).mpr unset)] at further
    exact exists_readFlag_iff.mp further
  · rintro ⟨flag, further⟩
    obtain ⟨first, inline⟩ := exists_readFlag_iff.mpr flag
    refine ⟨first, inline, ?_⟩
    by_cases unset : Unset members "inline"
    · rw [if_pos ((isNone_of_readFlag inline).mpr unset)]
      exact exists_readFlag_iff.mpr (further unset)
    · rw [if_neg (mt (isNone_of_readFlag inline).mp unset)]
      exact ⟨first, rfl⟩

/-- A margin that fits a double is read, or a diagnostic says that it is no number. -/
theorem readMargin_outcome (rule : String)
    (fits : ∀ number, members.get? setting = some (.int number) → FitsDouble number) :
    (∃ margin, readMargin rule members setting = .ok margin ∧ IsMargin members setting) ∨
      ∃ problem, readMargin rule members setting = .error (.malformed ⟨rule, problem⟩) ∧
        ¬ IsMargin members setting := by
  unfold readMargin IsMargin
  cases found : members.get? setting with
  | none => simp
  | some value =>
    cases value with
    | int number =>
      obtain ⟨double, nearest⟩ :=
        Option.isSome_iff_exists.mp ((ofInt?_isSome_iff number).mpr (fits number found))
      simp [nearest]
    | _ => simp

end Settings

/-- The values that describe a rule: a well-formed body with the settings of the rule beside its
tag. -/
structure DescribesRule (names : List String) (value : Json) : Prop where
  body : WellFormed names false value
  inline : IsFlag (membersOf value) "inline"
  /-- The other word for the same setting counts only when the first is not set. -/
  collapse : Unset (membersOf value) "inline" → IsFlag (membersOf value) "collapse"
  railroad : IsFlag (membersOf value) "railroad"
  left : IsMargin (membersOf value) "left"
  right : IsMargin (membersOf value) "right"

/-- No integer margin lies beyond the doubles. -/
def MarginsFit (value : Json) : Prop :=
  ∀ setting ∈ ["left", "right"], ∀ number,
    (membersOf value).get? setting = some (.int number) → FitsDouble number

section Rules

variable {names : List String} {delist : Bool} {name : String} {value : Json}

/-- The body and the flags of a rule are read exactly when they are well formed. -/
theorem exists_readBody_iff (delist : Bool) (own : name ∈ names) :
    (∃ checked, readBody ⟨name, names, delist⟩ value = .ok checked) ↔
      WellFormed names false value ∧
        (IsFlag (membersOf value) "inline" ∧
          (Unset (membersOf value) "inline" → IsFlag (membersOf value) "collapse")) ∧
        IsFlag (membersOf value) "railroad" := by
  have node : (∃ reading, readNode ⟨name, names, delist⟩ true value = .ok reading) ↔
      WellFormed names false value := exists_readNode_iff own
  rw [← node, ← exists_readInline_iff, ← exists_readFlag_iff, readBody]
  simp only [exists_bind_iff, pure_eq_ok, exists_eq', and_true, exists_and_right]

/-- A rule is read when its value describes one, and otherwise there is a diagnostic for it. -/
theorem readRule_outcome (delist : Bool) (own : name ∈ names) (fits : MarginsFit value) :
    (∃ rule, readRule names delist name value = .ok rule ∧ DescribesRule names value) ∨
      ∃ problem, readRule names delist name value = .error (.malformed ⟨name, problem⟩) ∧
        ¬ DescribesRule names value := by
  have body : (∃ checked, readBody ⟨name, names, delist⟩ value = .ok checked) ↔ _ :=
    exists_readBody_iff delist own
  unfold readRule
  cases read : readBody ⟨name, names, delist⟩ value with
  | error problem =>
    refine .inr ⟨problem, rfl, fun described => ?_⟩
    have flags := And.intro described.inline described.collapse
    obtain ⟨checked, success⟩ := body.mpr ⟨described.body, flags, described.railroad⟩
    rw [read] at success
    contradiction
  | ok checked =>
    obtain ⟨formed, ⟨inline, collapse⟩, railroad⟩ := body.mp ⟨checked, read⟩
    have leftFits := fits "left" (by simp)
    have rightFits := fits "right" (by simp)
    rcases readMargin_outcome name leftFits with ⟨left, leftRead, isLeft⟩ | ⟨problem, bad, noLeft⟩
    · rcases readMargin_outcome name rightFits with
        ⟨right, rightRead, isRight⟩ | ⟨problem, bad, noRight⟩
      · have described : DescribesRule names value :=
          ⟨formed, inline, collapse, railroad, isLeft, isRight⟩
        refine .inl (exists_and_right.mpr ⟨exists_bind_iff.mpr ⟨left, leftRead, ?_⟩, described⟩)
        exact exists_bind_iff.mpr ⟨right, rightRead, _, rfl⟩
      · refine .inr ⟨problem, ?_, fun described => noRight described.right⟩
        simp [leftRead, bad, bind, Except.bind]
    · refine .inr ⟨problem, ?_, fun described => noLeft described.left⟩
      simp [bad, bind, Except.bind]

/-- The first of several named values that describes no rule has the given name. -/
def FirstMalformed (names : List String) (entries : Entries Json) (name : String) : Prop :=
  ∃ before value after, entries = before ++ (name, value) :: after ∧
    (∀ entry ∈ before, DescribesRule names entry.2) ∧ ¬ DescribesRule names value

/-- Rules are read when each value describes one, and otherwise there is a diagnostic for the first
that does not. -/
theorem readRules_outcome (delist : Bool) {entries : Entries Json}
    (own : ∀ entry ∈ entries, entry.1 ∈ names) (fits : ∀ entry ∈ entries, MarginsFit entry.2) :
    (∃ rules, readRules names delist entries = .ok rules ∧
        ∀ entry ∈ entries, DescribesRule names entry.2) ∨
      ∃ diagnostic, readRules names delist entries = .error (.malformed diagnostic) ∧
        FirstMalformed names entries diagnostic.rule := by
  induction entries with
  | nil => exact .inl ⟨[], rfl, List.forall_mem_nil _⟩
  | cons entry rest inductionHypothesis =>
    obtain ⟨ownFirst, ownOthers⟩ := List.forall_mem_cons.mp own
    obtain ⟨fitsFirst, fitOthers⟩ := List.forall_mem_cons.mp fits
    rcases readRule_outcome delist ownFirst fitsFirst with
      ⟨rule, read, described⟩ | ⟨problem, bad, malformed⟩
    · rcases inductionHypothesis ownOthers fitOthers with
        ⟨rules, others, all⟩ | ⟨diagnostic, bad, before, value, after, rfl, all, malformed⟩
      · refine .inl ⟨rule :: rules, ?_, List.forall_mem_cons.mpr ⟨described, all⟩⟩
        simp [readRules, read, others, bind, Except.bind, pure, Except.pure]
      · refine .inr ⟨diagnostic, ?_, entry :: before, value, after, rfl,
          List.forall_mem_cons.mpr ⟨described, all⟩, malformed⟩
        simp [readRules, read, bad, bind, Except.bind]
    · refine .inr ⟨⟨entry.1, problem⟩, ?_, [], entry.2, rest, rfl, List.forall_mem_nil _, malformed⟩
      simp [readRules, bad, bind, Except.bind]

end Rules

end Validation

/-- A description is accepted exactly when each of its values describes a rule, and otherwise there
is a diagnostic for the first that does not. -/
theorem accepts_exactly_well_formed {description : Entries Json}
    (fits : ∀ entry ∈ description, Validation.MarginsFit entry.2) (delist : Bool) :
    ((∃ grammar, validate description delist = .ok grammar) ↔
        ∀ entry ∈ description, Validation.DescribesRule description.names entry.2) ∧
      ((¬ ∃ grammar, validate description delist = .ok grammar) →
        ∃ diagnostic, validate description delist = .error (.malformed diagnostic) ∧
          Validation.FirstMalformed description.names description diagnostic.rule) := by
  have own : ∀ entry ∈ description, entry.1 ∈ description.names :=
    fun _ member => List.mem_map_of_mem member
  rcases Validation.readRules_outcome delist own fits with
    ⟨rules, read, all⟩ | ⟨diagnostic, bad, first⟩
  · have accepted : ∃ grammar, validate description delist = .ok grammar :=
      ⟨_, Validation.map_eq_ok.mpr ⟨rules, read, rfl⟩⟩
    exact ⟨iff_of_true accepted all, absurd accepted⟩
  · have refused : validate description delist = .error (.malformed diagnostic) := by
      rw [validate, bad]
      rfl
    have none : ¬ ∃ grammar, validate description delist = .ok grammar := by
      rintro ⟨grammar, accepted⟩
      rw [refused] at accepted
      contradiction
    have some : ¬ ∀ entry ∈ description, Validation.DescribesRule description.names entry.2 := by
      obtain ⟨before, value, after, entries, -, malformed⟩ := first
      intro all
      refine malformed (all (diagnostic.rule, value) ?_)
      rw [entries]
      exact List.mem_append_right before (.head after)
    exact ⟨iff_of_false none some, fun _ => ⟨diagnostic, refused, first⟩⟩

/-- A list, its item with a list without separator inside, and a sequence that is no array. -/
def nestedFault : Entries Json :=
  [("items", .obj [("list", .str "item"), ("separator", .obj [("token", .str ",")])]),
    ("item", .obj [("choice", .arr [.obj [("terminal", .str "digit")],
      .obj [("zeroOrMore", .obj [("list", .str "items")])]])]),
    ("rest", .obj [("sequence", .str "item"), ("left", .int 2)])]

/-- Of two rules that are not well formed the first is named, also when its fault lies inside it. -/
theorem nested_fault_named_first :
    (∀ entry ∈ nestedFault, Validation.MarginsFit entry.2) ∧
      validate nestedFault true = .error (.malformed ⟨"item", .missingSeparator "list"⟩) ∧
      (¬ ∀ entry ∈ nestedFault, Validation.DescribesRule nestedFault.names entry.2) ∧
      Validation.FirstMalformed nestedFault.names nestedFault "item" := by
  have fits : ∀ entry ∈ nestedFault, Validation.MarginsFit entry.2 := by
    have two : FitsDouble 2 := by decide +kernel
    intro entry member setting listed number found
    simp only [nestedFault, List.mem_cons, List.not_mem_nil, or_false] at member listed
    rcases member with rfl | rfl | rfl <;> rcases listed with rfl | rfl <;>
      simp [Validation.membersOf, Entries.get?] at found
    exact found ▸ two
  have refused : validate nestedFault true
      = .error (.malformed ⟨"item", .missingSeparator "list"⟩) := by cbv
  have none : ¬ ∃ grammar, validate nestedFault true = .ok grammar := by
    rintro ⟨grammar, accepted⟩
    rw [refused] at accepted
    contradiction
  obtain ⟨exactly, named⟩ := accepts_exactly_well_formed fits true
  obtain ⟨diagnostic, same, first⟩ := named none
  rw [refused] at same
  cases same
  exact ⟨fits, refused, mt exactly.mpr none, first⟩

end GrammarView
