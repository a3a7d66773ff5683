import GrammarView.Grammar.Validation
import GrammarView.Proofs.Expressions
import Mathlib.Data.List.Forall2

/-!
# What a description means

The relation between the parts of a description and the expressions that they stand for, beside
the reader that computes it. The reader checks the parts in a fixed order and has an error for
every problem; the relation has one rule for every form of a part and nothing else, and the two
agree on everything that the reader accepts.
-/

namespace GrammarView

namespace Validation

/-- What a list stands for, in a whole body and inside one. -/
def listReading (scope : Scope) (whole : Bool) (item : String) (separator : Reading) : Reading :=
  if scope.delist then
    if whole then delistRule scope.rule item separator else delistPart item separator
  else keepList item separator

/-- Parts of a description with the expressions that they stand for and the names that these refer
to, in the order in which they are met. Only a single part may be a whole body, and only a part
inside a body may be a name. -/
inductive Reads (scope : Scope) : Bool → List Json → List Expr → List String → Prop where
  | nil : Reads scope false [] [] []
  | cons {value rest expr exprs references others}
      (first : Reads scope false [value] [expr] references)
      (remaining : Reads scope false rest exprs others) :
      Reads scope false (value :: rest) (expr :: exprs) (references ++ others)
  | reference {name} (known : name ∈ scope.names) :
      Reads scope false [.str name] [.reference name] [name]
  | leaf {whole members word leaf text} (single : tagged members = [(word, .str text)])
      (tag : Tag.ofWord? word = some (.leaf leaf)) :
      Reads scope whole [.obj members] [leaf.expr text] []
  | tokens {whole members word} {texts : List String}
      (single : tagged members = [(word, .arr (texts.map .str))])
      (tag : Tag.ofWord? word = some .tokens) :
      Reads scope whole [.obj members] [.tokens texts] []
  | sequence {whole members word values items references}
      (single : tagged members = [(word, .arr values)])
      (tag : Tag.ofWord? word = some .sequence)
      (parts : Reads scope false values items references) :
      Reads scope whole [.obj members] [.sequence items] references
  | choice {whole members word values items references}
      (single : tagged members = [(word, .arr values)])
      (tag : Tag.ofWord? word = some .choice)
      (parts : Reads scope false values items references) :
      Reads scope whole [.obj members] [.choice items] references
  | quantified {whole members word value quantifier item references}
      (single : tagged members = [(word, value)])
      (tag : Tag.ofWord? word = some (.quantified quantifier))
      (part : Reads scope false [value] [item] references) :
      Reads scope whole [.obj members] [.quantified quantifier item] references
  | list {whole members word item} {between : Entries Json} {separator references}
      (single : tagged members = [(word, .str item)])
      (tag : Tag.ofWord? word = some .list)
      (separated : Entries.get? members "separator" = some (.obj between))
      (part : Reads scope false [.obj between] [separator] references)
      (known : item ∈ scope.names)
      (recursive : scope.delist = true → whole = true → scope.rule ∈ scope.names) :
      Reads scope whole [.obj members]
        [(listReading scope whole item ⟨separator, references⟩).expr]
        (listReading scope whole item ⟨separator, references⟩).references

section Outcomes

variable {α β ε : Type}

/-- A changed outcome is a success when the outcome is. -/
theorem map_eq_ok {outcome : Except ε α} {change : α → β} {result : β} :
    change <$> outcome = .ok result ↔ ∃ value, outcome = .ok value ∧ change value = result := by
  cases outcome <;> simp [Functor.map, Except.map]

/-- A continued outcome is a success when the outcome and what follows it are. -/
theorem bind_eq_ok {outcome : Except ε α} {next : α → Except ε β} {result : β} :
    outcome >>= next = .ok result ↔ ∃ value, outcome = .ok value ∧ next value = .ok result := by
  cases outcome <;> simp [bind, Except.bind]

/-- Returning a value succeeds with that value. -/
theorem pure_eq_ok {value result : α} :
    (pure value : Except ε α) = .ok result ↔ value = result := by
  simp [pure, Except.pure]

/-- Of two related lists, whatever is in the second is related to something in the first. -/
theorem exists_left_of_mem {relation : α → β → Prop} {lefts : List α} {rights : List β}
    (related : List.Forall₂ relation lefts rights) {right : β} (member : right ∈ rights) :
    ∃ left ∈ lefts, relation left right := by
  induction related with
  | nil => contradiction
  | cons first _ inductionHypothesis =>
    obtain rfl | later := List.mem_cons.mp member
    · exact ⟨_, .head _, first⟩
    · obtain ⟨left, found, relates⟩ := inductionHypothesis later
      exact ⟨left, .tail _ found, relates⟩

end Outcomes

/-- Exactly the names of rules may be referred to. -/
theorem readReference_eq_ok {scope : Scope} {word target name : String} :
    readReference scope word target = .ok name ↔ target ∈ scope.names ∧ target = name := by
  unfold readReference
  split <;> simp_all

/-- Exactly the arrays of texts are read as texts. -/
theorem readTexts_eq_ok {word : String} {index : Nat} {values : List Json}
    {texts : List String} :
    readTexts word index values = .ok texts ↔ values = texts.map .str := by
  fun_induction readTexts word index values generalizing texts with
  | case1 => cases texts <;> simp
  | case2 index text rest inductionHypothesis =>
    rw [map_eq_ok]
    cases texts with
    | nil => simp
    | cons head tail =>
      simp only [List.cons.injEq, List.map_cons, Json.str.injEq, inductionHypothesis]
      grind
  | case3 index value rest notText =>
    cases texts with
    | nil => simp
    | cons head tail => simpa using fun same => absurd same (notText head)

/-- A list is read when its item is a name that may be referred to and its separator is read, and
in a delisted whole body also the rule itself may be referred to. -/
theorem readList_eq_ok {scope : Scope} {whole : Bool} {word item : String}
    {separator : Except Problem Reading} {reading : Reading} :
    readList scope whole word item separator = .ok reading ↔
      item ∈ scope.names ∧ (scope.delist = true → whole = true → scope.rule ∈ scope.names) ∧
        ∃ between, separator = .ok between ∧ listReading scope whole item between = reading := by
  unfold readList listReading
  cases delisted : scope.delist <;> cases whole <;>
    simp only [Bool.false_eq_true, ↓reduceIte, bind_eq_ok, pure_eq_ok, readReference_eq_ok] <;>
    grind

/-- The items of an array are smaller than the array. -/
theorem sizeOf_lt_of_mem {values : List Json} {value : Json} (member : value ∈ values) :
    sizeOf value < sizeOf (Json.arr values) := by
  have smaller := List.sizeOf_lt_of_mem member
  simp only [Json.arr.sizeOf_spec]
  omega

/-- Induction over values by their size, as the value of a tag is inside an object but is reached
only through its entries. -/
theorem sizeInduction {motive : Json → Prop} (value : Json)
    (step : ∀ value, (∀ smaller, sizeOf smaller < sizeOf value → motive smaller) → motive value) :
    motive value :=
  (measure (sizeOf : Json → Nat)).wf.induction value step

/-- A value that is a body or part of one, and what it is read as. -/
def ReadsNode (scope : Scope) (whole : Bool) (value : Json) (reading : Reading) : Prop :=
  ∃ members, value = .obj members ∧
    Reads scope whole [.obj members] [reading.expr] reading.references

/-- What is read from a part is what the part stands for, if this holds of objects. -/
theorem Reads.of_readPart {scope : Scope} {word : String} {index : Option Nat} {value : Json}
    {reading : Reading}
    (node : readNode scope false value = .ok reading → ReadsNode scope false value reading)
    (read : readPart scope word index value = .ok reading) :
    Reads scope false [value] [reading.expr] reading.references := by
  rw [readPart.eq_def] at read
  split at read
  · obtain ⟨name, same, rfl⟩ := map_eq_ok.mp read
    obtain ⟨known, rfl⟩ := readReference_eq_ok.mp same
    exact .reference known
  · obtain ⟨members, same, part⟩ := node read
    cases same
    exact part
  · contradiction

/-- What is read from items is what they stand for, if this holds of the objects among them. -/
theorem Reads.of_readItems {scope : Scope} {word : String} {index : Nat} {values : List Json}
    {readings : Readings}
    (nodes : ∀ value ∈ values, ∀ reading,
      readNode scope false value = .ok reading → ReadsNode scope false value reading)
    (read : readItems scope word index values = .ok readings) :
    Reads scope false values readings.exprs readings.references := by
  induction values generalizing index readings with
  | nil =>
    rw [readItems] at read
    cases Except.ok.inj read
    exact .nil
  | cons value rest inductionHypothesis =>
    rw [readItems] at read
    obtain ⟨first, firstRead, others⟩ := bind_eq_ok.mp read
    obtain ⟨remaining, remainingRead, result⟩ := bind_eq_ok.mp others
    cases pure_eq_ok.mp result
    obtain ⟨node, nodes⟩ := List.forall_mem_cons.mp nodes
    exact .cons (.of_readPart (node first) firstRead) (inductionHypothesis nodes remainingRead)

/-- What is read from an array is what its items stand for, if this holds of all that is smaller
than the array. -/
theorem Reads.of_readParts {scope : Scope} {word : String} {value : Json} {readings : Readings}
    (nodes : ∀ smaller, sizeOf smaller < sizeOf value → ∀ reading,
      readNode scope false smaller = .ok reading → ReadsNode scope false smaller reading)
    (read : readParts scope word value = .ok readings) :
    ∃ values, value = .arr values ∧
      Reads scope false values readings.exprs readings.references := by
  rw [readParts.eq_def] at read
  split at read
  · exact ⟨_, rfl, .of_readItems (fun value member => nodes value (sizeOf_lt_of_mem member)) read⟩
  · contradiction

/-- What is read from an object is what the object stands for. -/
theorem Reads.of_readNode {scope : Scope} {whole : Bool} {value : Json} {reading : Reading}
    (read : readNode scope whole value = .ok reading) : ReadsNode scope whole value reading := by
  induction value using sizeInduction generalizing whole reading with
  | step value inductionHypothesis =>
  rw [readNode.eq_def] at read
  split at read
  case h_2 => contradiction
  case h_1 members =>
    refine ⟨members, rfl, ?_⟩
    split at read
    case h_1 | h_3 => contradiction
    case h_2 word content single =>
      have smaller := sizeOf_tagged_lt single
      have nodes : ∀ part, sizeOf part < sizeOf content → ∀ reading,
          readNode scope false part = .ok reading → ReadsNode scope false part reading :=
        fun part inside _ => inductionHypothesis part (Nat.lt_trans inside smaller)
      split at read
      case h_1 => contradiction
      case h_2 leaf tag =>
        split at read
        · cases Except.ok.inj read
          exact .leaf single tag
        · contradiction
      case h_3 tag =>
        split at read
        · obtain ⟨texts, same, rfl⟩ := map_eq_ok.mp read
          cases readTexts_eq_ok.mp same
          exact .tokens single tag
        · contradiction
      case h_4 tag =>
        obtain ⟨parts, inner, rfl⟩ := map_eq_ok.mp read
        obtain ⟨values, rfl, items⟩ := Reads.of_readParts nodes inner
        exact .sequence single tag items
      case h_5 tag =>
        obtain ⟨parts, inner, rfl⟩ := map_eq_ok.mp read
        obtain ⟨values, rfl, items⟩ := Reads.of_readParts nodes inner
        exact .choice single tag items
      case h_6 quantifier tag =>
        obtain ⟨part, inner, rfl⟩ := map_eq_ok.mp read
        exact .quantified single tag (.of_readPart (inductionHypothesis content smaller) inner)
      case h_7 tag =>
        split at read
        case h_2 => contradiction
        case h_1 =>
          split at read
          case h_1 => contradiction
          case h_2 between separated =>
            obtain ⟨known, recursive, separator, inner, rfl⟩ := readList_eq_ok.mp read
            obtain ⟨members, rfl, part⟩ :=
              inductionHypothesis between (Json.sizeOf_lt_of_get? separated) inner
            exact .list single tag separated part known recursive

section Forms

variable {scope : Scope} {whole : Bool} {members : Entries Json} {word : String} {content : Json}

theorem readNode_leaf {leaf : LeafTag} {text : String}
    (single : tagged members = [(word, .str text)])
    (tag : Tag.ofWord? word = some (.leaf leaf)) :
    readNode scope whole (.obj members) = .ok (.leaf (leaf.expr text)) := by
  rw [readNode]
  grind

theorem readNode_tokens {values : List Json} (single : tagged members = [(word, .arr values)])
    (tag : Tag.ofWord? word = some .tokens) :
    readNode scope whole (.obj members)
      = (fun texts => .leaf (.tokens texts)) <$> readTexts word 0 values := by
  rw [readNode]
  grind

theorem readNode_sequence (single : tagged members = [(word, content)])
    (tag : Tag.ofWord? word = some .sequence) :
    readNode scope whole (.obj members)
      = (fun parts => ⟨.sequence parts.exprs, parts.references⟩)
          <$> readParts scope word content := by
  rw [readNode]
  grind

theorem readNode_choice (single : tagged members = [(word, content)])
    (tag : Tag.ofWord? word = some .choice) :
    readNode scope whole (.obj members)
      = (fun parts => ⟨.choice parts.exprs, parts.references⟩)
          <$> readParts scope word content := by
  rw [readNode]
  grind

theorem readNode_quantified {quantifier : Quantifier}
    (single : tagged members = [(word, content)])
    (tag : Tag.ofWord? word = some (.quantified quantifier)) :
    readNode scope whole (.obj members)
      = (fun part => ⟨.quantified quantifier part.expr, part.references⟩)
          <$> readPart scope word none content := by
  rw [readNode]
  grind

theorem readNode_list {item : String} {between : Json}
    (single : tagged members = [(word, .str item)]) (tag : Tag.ofWord? word = some .list)
    (separated : Entries.get? members "separator" = some between) :
    readNode scope whole (.obj members)
      = readList scope whole word item (readNode scope false between) := by
  rw [readNode]
  grind

end Forms

/-- What the reader makes of parts that stand for expressions: of a whole body, of one part inside
it, and of an array of parts. -/
structure Accepted (scope : Scope) (whole : Bool) (values : List Json) (exprs : List Expr)
    (references : List String) : Prop where
  node : ∀ {members expr}, values = [.obj members] → exprs = [expr] →
    readNode scope whole (.obj members) = .ok ⟨expr, references⟩
  part : whole = false → ∀ {value expr} word index, values = [value] → exprs = [expr] →
    readPart scope word index value = .ok ⟨expr, references⟩
  items : whole = false → ∀ word index,
    readItems scope word index values = .ok ⟨exprs, references⟩

/-- A part that is read is read as the only item of an array. -/
theorem readItems_singleton {scope : Scope} {word : String} {index : Nat} {value : Json}
    {expr : Expr} {references : List String}
    (part : readPart scope word (some index) value = .ok ⟨expr, references⟩) :
    readItems scope word index [value] = .ok ⟨[expr], references⟩ := by
  simp [readItems, part, bind, Except.bind, pure, Except.pure]

/-- An object that is read as a body or as a part of one is read wherever it may stand. -/
theorem Accepted.of_node {scope : Scope} {whole : Bool} {members : Entries Json} {expr : Expr}
    {references : List String}
    (node : readNode scope whole (.obj members) = .ok ⟨expr, references⟩) :
    Accepted scope whole [.obj members] [expr] references where
  node := by
    rintro _ _ ⟨⟩ ⟨⟩
    exact node
  part := by
    rintro rfl _ _ word index ⟨⟩ ⟨⟩
    rw [readPart, node]
  items := by
    rintro rfl word index
    refine readItems_singleton ?_
    rw [readPart, node]

/-- Parts that stand for expressions are read as these. -/
theorem Reads.accepted {scope : Scope} {whole : Bool} {values : List Json} {exprs : List Expr}
    {references : List String} (reads : Reads scope whole values exprs references) :
    Accepted scope whole values exprs references := by
  induction reads with
  | nil =>
    refine ⟨?_, ?_, fun _ _ _ => by rw [readItems]⟩
    · rintro members expr ⟨⟩
    · rintro - value expr word index ⟨⟩
  | @cons value rest expr exprs references others first remaining accepted inductionHypothesis =>
    refine ⟨?_, ?_, ?_⟩
    · rintro members _ ⟨⟩ ⟨⟩
      cases remaining
      simpa using accepted.node rfl rfl
    · rintro - _ _ word index ⟨⟩ ⟨⟩
      cases remaining
      simpa using accepted.part rfl word index rfl rfl
    · intro _ word index
      simp [readItems, accepted.part rfl word (some index) rfl rfl,
        inductionHypothesis.items rfl word (index + 1), bind, Except.bind, pure, Except.pure]
  | @reference name known =>
    have part (word : String) (index : Option Nat) :
        readPart scope word index (.str name) = .ok ⟨.reference name, [name]⟩ := by
      rw [readPart, readReference_eq_ok.mpr ⟨known, rfl⟩]
      rfl
    refine ⟨?_, ?_, fun _ word index => readItems_singleton (part word (some index))⟩
    · rintro members expr ⟨⟩
    · rintro - _ _ word index ⟨⟩ ⟨⟩
      exact part word index
  | leaf single tag => exact .of_node (readNode_leaf single tag)
  | tokens single tag =>
    refine .of_node ?_
    rw [readNode_tokens single tag, readTexts_eq_ok.mpr rfl]
    rfl
  | sequence single tag parts accepted =>
    refine .of_node ?_
    rw [readNode_sequence single tag, readParts, accepted.items rfl]
    rfl
  | choice single tag parts accepted =>
    refine .of_node ?_
    rw [readNode_choice single tag, readParts, accepted.items rfl]
    rfl
  | quantified single tag part accepted =>
    refine .of_node ?_
    rw [readNode_quantified single tag, accepted.part rfl _ _ rfl rfl]
    rfl
  | list single tag separated part known recursive accepted =>
    refine .of_node ?_
    rw [readNode_list single tag separated, readList_eq_ok.mpr]
    exact ⟨known, recursive, _, accepted.node rfl rfl, rfl⟩

/-- A body is read exactly as what it stands for. -/
theorem readNode_eq_ok {scope : Scope} {whole : Bool} {value : Json} {reading : Reading} :
    readNode scope whole value = .ok reading ↔ ReadsNode scope whole value reading := by
  constructor
  · exact Reads.of_readNode
  · rintro ⟨members, rfl, reads⟩
    exact reads.accepted.node rfl rfl

/-- Whether an expression is of a known kind and no list. -/
def Plain : Expr → Prop
  | .list _ _ => False
  | .foreign _ _ => False
  | _ => True

/-- Delisted readings hold no list at any depth and no part of no known kind. -/
theorem Reads.plain {rule : String} {names : List String} {whole : Bool} {values : List Json}
    {exprs : List Expr} {references : List String}
    (reads : Reads ⟨rule, names, true⟩ whole values exprs references) :
    Expr.Throughout Plain exprs := by
  induction reads with
  | nil => exact nofun
  | cons first remaining firstPlain remainingPlain =>
    exact Expr.throughout_cons.mpr ⟨firstPlain, remainingPlain⟩
  | reference => simp [Expr.Throughout, Expr.partsOfAll, Expr.parts, Plain]
  | @leaf whole members word leaf text =>
    cases leaf <;> simp [LeafTag.expr, Expr.Throughout, Expr.partsOfAll, Expr.parts, Plain]
  | tokens => simp [Expr.Throughout, Expr.partsOfAll, Expr.parts, Plain]
  | sequence single tag parts inductionHypothesis =>
    exact Expr.throughout_sequence.mpr ⟨trivial, inductionHypothesis⟩
  | choice single tag parts inductionHypothesis =>
    exact Expr.throughout_choice.mpr ⟨trivial, inductionHypothesis⟩
  | quantified single tag part inductionHypothesis =>
    exact Expr.throughout_quantified.mpr ⟨trivial, inductionHypothesis⟩
  | @list whole members word item between separator references single tag separated part known
      recursive inductionHypothesis =>
    have names (name : String) : Expr.Throughout Plain [.reference name] := by
      simp [Expr.Throughout, Expr.partsOfAll, Expr.parts, Plain]
    have further : Expr.Throughout Plain [separator, .reference item] :=
      Expr.throughout_cons.mpr ⟨inductionHypothesis, names item⟩
    cases whole with
    | false =>
      have repetition : Expr.Throughout Plain
          [.quantified .zeroOrMore (.sequence [separator, .reference item])] :=
        Expr.throughout_quantified.mpr
          ⟨trivial, Expr.throughout_sequence.mpr ⟨trivial, further⟩⟩
      exact Expr.throughout_sequence.mpr
        ⟨trivial, Expr.throughout_cons.mpr ⟨names item, repetition⟩⟩
    | true =>
      have recursion : Expr.Throughout Plain
          [.sequence [.reference rule, separator, .reference item]] :=
        Expr.throughout_sequence.mpr
          ⟨trivial, Expr.throughout_cons.mpr ⟨names rule, further⟩⟩
      exact Expr.throughout_choice.mpr
        ⟨trivial, Expr.throughout_cons.mpr ⟨names item, recursion⟩⟩

/-- The description of a rule with the rule that it stands for. It says nothing of the rules that
refer to this one. -/
inductive ReadsRule (names : List String) (delist : Bool) (name : String) :
    Json → Rule → Prop where
  | rule {members expr references inlined railroad left right}
      (body : Reads ⟨name, names, delist⟩ true [.obj members] [expr] references)
      (inlineFlags : readInline members = .ok inlined)
      (railroadFlag : readFlag members "railroad" = .ok railroad)
      (leftMargin : readMargin name members "left" = .ok left)
      (rightMargin : readMargin name members "right" = .ok right)
      (referrers : List String) :
      ReadsRule names delist name (.obj members) {
        name
        body := expr
        inline := if expr.isAlternative then some false else inlined
        railroad := railroad != some false
        left
        right
        references := references.eraseDups
        referrers }

/-- A rule has the name of its description. -/
theorem ReadsRule.name_eq {names : List String} {delist : Bool} {name : String} {value : Json}
    {rule : Rule} (reads : ReadsRule names delist name value rule) : rule.name = name := by
  cases reads
  rfl

/-- A description stands for a rule whatever rules refer to it. -/
theorem ReadsRule.refill {names : List String} {delist : Bool} {name : String} {value : Json}
    {rule : Rule} (reads : ReadsRule names delist name value rule) (referrers : List String) :
    ReadsRule names delist name value { rule with referrers } := by
  obtain ⟨body, inlineFlags, railroadFlag, leftMargin, rightMargin, -⟩ := reads
  exact .rule body inlineFlags railroadFlag leftMargin rightMargin referrers

/-- A description is read exactly as the rule that it stands for, before it is known which rules
refer to it. -/
theorem readRule_eq_ok {names : List String} {delist : Bool} {name : String} {value : Json}
    {rule : Rule} :
    readRule names delist name value = .ok rule ↔
      ReadsRule names delist name value rule ∧ rule.referrers = [] := by
  constructor
  · intro read
    unfold readRule at read
    split at read
    case h_1 => contradiction
    case h_2 checked body =>
      obtain ⟨reading, node, body⟩ := bind_eq_ok.mp body
      obtain ⟨inlined, inlineFlags, body⟩ := bind_eq_ok.mp body
      obtain ⟨railroad, railroadFlag, result⟩ := bind_eq_ok.mp body
      cases pure_eq_ok.mp result
      obtain ⟨left, leftMargin, read⟩ := bind_eq_ok.mp read
      obtain ⟨right, rightMargin, result⟩ := bind_eq_ok.mp read
      cases pure_eq_ok.mp result
      obtain ⟨members, rfl, reads⟩ := readNode_eq_ok.mp node
      exact ⟨.rule reads inlineFlags railroadFlag leftMargin rightMargin [], rfl⟩
  · rintro ⟨⟨body, inlineFlags, railroadFlag, leftMargin, rightMargin, _⟩, rfl⟩
    have node := body.accepted.node rfl rfl
    simp [readRule, readBody, node, membersOf, inlineFlags, railroadFlag, leftMargin, rightMargin,
      bind, Except.bind, pure, Except.pure]

/-- Rules are read exactly as what each of them stands for. -/
theorem readRules_eq_ok {names : List String} {delist : Bool} {description : Entries Json}
    {rules : List Rule} :
    readRules names delist description = .ok rules ↔
      List.Forall₂
        (fun entry rule => ReadsRule names delist entry.1 entry.2 rule ∧ rule.referrers = [])
        description rules := by
  induction description generalizing rules with
  | nil =>
    rw [readRules, Except.ok.injEq, List.forall₂_nil_left_iff]
    exact eq_comm
  | cons entry rest inductionHypothesis =>
    simp only [readRules, bind_eq_ok, pure_eq_ok, readRule_eq_ok, inductionHypothesis,
      List.forall₂_cons_left_iff]
    grind

end Validation

/-- A rule without what is known of the rules that refer to it. -/
def Rule.byItself (rule : Rule) : Rule :=
  { rule with referrers := [] }

namespace RuleSet

/-- Whether every rule keeps the names of the rules that refer to it. -/
def Indexed (grammar : RuleSet) : Prop :=
  ∀ rule ∈ grammar.rules, rule.referrers = grammar.referrers rule.name

/-- When referrers are filled in, every rule keeps its own. -/
theorem indexed_withReferrers (grammar : RuleSet) : grammar.withReferrers.Indexed := by
  intro rule member
  obtain ⟨original, -, rfl⟩ := List.mem_map.mp member
  exact (referrers_withReferrers original.name).symm

/-- Where every rule keeps the names of the rules that refer to it, these can be filled in anew. -/
theorem Indexed.withReferrers_byItself {grammar : RuleSet} (indexed : grammar.Indexed) :
    RuleSet.withReferrers ⟨grammar.rules.map Rule.byItself⟩ = grammar := by
  have same (name : String) :
      RuleSet.referrers ⟨grammar.rules.map Rule.byItself⟩ name = grammar.referrers name := by
    simp only [referrers, List.filter_map, List.map_map]
    rfl
  have rules : (grammar.rules.map Rule.byItself).map
      (fun rule => { rule with referrers := grammar.referrers rule.name }) = grammar.rules := by
    rw [List.map_map]
    refine (List.map_congr_left fun rule member => ?_).trans (List.map_id grammar.rules)
    change { rule with referrers := grammar.referrers rule.name } = rule
    rw [← indexed rule member]
  simp only [withReferrers, same, rules]

end RuleSet

/-- A description is a grammar exactly when each of its entries stands for a rule, and each rule
keeps the names of the rules that refer to it. -/
theorem validate_eq_ok {description : Entries Json} {delist : Bool} {grammar : RuleSet} :
    validate description delist = .ok grammar ↔
      List.Forall₂
        (fun entry rule => Validation.ReadsRule description.names delist entry.1 entry.2 rule)
        description grammar.rules ∧ grammar.Indexed := by
  simp only [validate, Validation.map_eq_ok, Validation.readRules_eq_ok]
  constructor
  · rintro ⟨rules, read, rfl⟩
    refine ⟨?_, RuleSet.indexed_withReferrers ⟨rules⟩⟩
    exact List.forall₂_map_right_iff.mpr (read.imp fun _ _ reads => reads.1.refill _)
  · rintro ⟨read, indexed⟩
    refine ⟨grammar.rules.map Rule.byItself, ?_, indexed.withReferrers_byItself⟩
    exact List.forall₂_map_right_iff.mpr (read.imp fun _ _ reads => ⟨reads.refill [], rfl⟩)

section Accepted

variable {description : Entries Json} {delist : Bool} {grammar : RuleSet}

/-- Rules for which the entries of a description stand become its grammar when the rules that refer
to them are filled in. -/
theorem validate_of_reads {rules : List Rule}
    (reads : List.Forall₂
      (fun entry rule => Validation.ReadsRule description.names delist entry.1 entry.2 rule)
      description rules) :
    validate description delist = .ok (RuleSet.mk rules).withReferrers := by
  refine validate_eq_ok.mpr ⟨?_, RuleSet.indexed_withReferrers ⟨rules⟩⟩
  exact List.forall₂_map_right_iff.mpr (reads.imp fun _ _ reads => reads.refill _)

/-- The rules of a grammar are what the entries of its description stand for. -/
theorem reads_of_validate (valid : validate description delist = .ok grammar) :
    List.Forall₂
      (fun entry rule => Validation.ReadsRule description.names delist entry.1 entry.2 rule)
      description grammar.rules :=
  (validate_eq_ok.mp valid).1

/-- The rules of a grammar keep the names of the rules that refer to them. -/
theorem indexed_of_validate (valid : validate description delist = .ok grammar) :
    grammar.Indexed :=
  (validate_eq_ok.mp valid).2

end Accepted

/-- The rules of a grammar have the names of its description, in order. -/
theorem names_of_validate {description : Entries Json} {delist : Bool} {grammar : RuleSet}
    (valid : validate description delist = .ok grammar) : grammar.names = description.names := by
  have named : List.Forall₂ (fun entry rule => entry.1 = rule.name) description grammar.rules :=
    (reads_of_validate valid).imp fun _ _ reads => reads.name_eq.symm
  have same := List.forall₂_map_right_iff.mpr (List.forall₂_map_left_iff.mpr named)
  rw [List.forall₂_eq_eq_eq] at same
  exact same.symm

/-- The bodies of delisted rules hold no list at any depth and no part of no known kind. -/
theorem plain_of_validate {description : Entries Json} {grammar : RuleSet}
    (valid : validate description true = .ok grammar) {rule : Rule}
    (member : rule ∈ grammar.rules) :
    Expr.Throughout Validation.Plain [rule.body] := by
  obtain ⟨⟨name, value⟩, -, reads⟩ :=
    Validation.exists_left_of_mem (reads_of_validate valid) member
  cases reads with
  | rule body => exact body.plain

end GrammarView
