import GrammarView.Proofs.CollapsedListing
import GrammarView.View

/-!
# Annotated listings

An annotated listing has the block of every rule with a remark behind it, and without the remarks
and the blocks of the rules that collapse it is the listing without remarks. Whether a block stands
in a listing can be told from the characters alone, as no text of a block can be taken for the
beginning of another one. A remark says of a rule that it is unused, or else whether its block is
missing from the listing without remarks, and names the rules that use it. What is said to be unused
is decided by the joined names, which are empty also for a rule that only a rule without a name
uses.
-/

namespace GrammarView

open Markup

section Blocks

variable {chars : List Char}

/-- No block can begin within some characters, whatever follows them. -/
def Blockless (chars : List Char) : Prop :=
  ∀ tail rest, '<' :: 'p' :: tail <:+ chars ++ rest → '<' :: 'p' :: tail <:+ rest

/-- No block begins within no characters. -/
theorem Blockless.nil : Blockless [] :=
  fun _ _ inside => inside

/-- No block begins within characters one after the other if none does within each. -/
theorem Blockless.append {others : List Char} (first : Blockless chars)
    (second : Blockless others) : Blockless (chars ++ others) := by
  intro tail rest inside
  rw [List.append_assoc] at inside
  exact second tail rest (first tail _ inside)

/-- No block begins with a character that is no bracket, or in front of another letter. -/
theorem Blockless.cons {first : Char} (others : Blockless chars)
    (other : ∀ rest tail, first :: chars ++ rest ≠ '<' :: 'p' :: tail) :
    Blockless (first :: chars) := by
  intro tail rest inside
  rcases List.suffix_cons_iff.mp inside with whole | later
  · exact absurd whole.symm (other rest tail)
  · exact others tail rest later

/-- No block begins without a bracket. -/
theorem Blockless.of_not_mem (free : '<' ∉ chars) : Blockless chars := by
  induction chars with
  | nil => exact .nil
  | cons first chars inductionHypothesis =>
    rw [List.mem_cons, not_or] at free
    refine (inductionHypothesis free.2).cons fun rest tail same => ?_
    exact free.1 (List.cons.inj same).1.symm

/-- No block begins with a bracket in front of a letter other than that of a block. -/
theorem Blockless.bracket {first : Char} (other : first ≠ 'p') (free : '<' ∉ first :: chars) :
    Blockless ('<' :: first :: chars) := by
  refine (Blockless.of_not_mem free).cons fun rest tail same => ?_
  exact other (List.cons.inj (List.cons.inj same).2).1

namespace Html

/-- A tree that is a text, has nothing to escape, or is a span of a known class that is not
empty. -/
inductive Simple : Markup → Prop where
  | text {content} : Simple (.text content)
  | written {content} (plain : IsPlain content) : Simple (.written content)
  | span {className content} (known : className ∈ Atom.classNames) (filled : content ≠ "") :
      Simple (span className content)

/-- The tree of a lexeme is simple. -/
theorem simple_spell (lexeme : Lexeme) : Simple (spell lexeme) := by
  cases lexeme with
  | rule name => exact .span (by decide) (by simp)
  | token text => exact .span (by decide) (by simp)
  | terminal text => exact .span (by decide) (by simp)
  | unknown => exact .text
  | gap | bar | opening | closing => exact .written (by decide)
  | mark quantifier => cases quantifier <;> exact .written (by decide)

/-- The trees of a production are simple. -/
theorem simple_of_mem_trees {production : Production} {tree : Markup}
    (member : tree ∈ trees production) : Simple tree := by
  rcases exists_of_mem_trees member with rfl | ⟨mark, plain, rfl⟩ | ⟨_, -, lexeme, -, rfl⟩
  · exact simple_spell (.rule production.name)
  · exact .written plain
  · exact simple_spell lexeme

/-- No block begins within a simple tree as it is written. -/
theorem Simple.blockless {tree : Markup} (simple : Simple tree) : Blockless (writeTree tree) := by
  cases simple with
  | @text content => exact .of_not_mem (less_not_mem_escape content)
  | @written content plain =>
    exact .of_not_mem fun bracket => absurd (plain _ bracket) (by decide)
  | @span className content known filled =>
    have opening : Blockless
        ('<' :: "span".toList ++ writeAttribute ("class", className) ++ ['>']) := by
      simp only [Atom.classNames, List.mem_cons, List.not_mem_nil, or_false] at known
      rcases known with rfl | rfl | rfl <;> exact .bracket (by decide) (by decide)
    have inside : Blockless (escape content) := .of_not_mem (less_not_mem_escape content)
    have closing : Blockless ('<' :: '/' :: "span>".toList) := .bracket (by decide) (by decide)
    have written : writeTree (Html.span className content)
        = ('<' :: "span".toList ++ writeAttribute ("class", className) ++ ['>'])
          ++ (escape content ++ '<' :: '/' :: "span>".toList) := by
      rw [write_span className filled]
      simp
    rw [written]
    exact opening.append (inside.append closing)

/-- No block begins within written trees if none does within each. -/
theorem blockless_writeTrees {trees : List Markup}
    (each : ∀ tree ∈ trees, Blockless (writeTree tree)) : Blockless (writeTrees trees) := by
  induction trees with
  | nil => exact .nil
  | cons tree rest inductionHypothesis =>
    obtain ⟨first, others⟩ := List.forall_mem_cons.mp each
    exact first.append (inductionHypothesis others)

/-- No block begins within a written production. -/
theorem blockless_trees (production : Production) : Blockless (writeTrees (trees production)) :=
  blockless_writeTrees fun _ member => (simple_of_mem_trees member).blockless

/-- A text that was escaped in front of a bracket can be read again. -/
theorem eq_of_escape_append {text other : String} {rest more : List Char}
    (same : escape text ++ '<' :: rest = escape other ++ '<' :: more) : text = other := by
  have again (text : String) (rest : List Char) :
      unescaped? ((escape text ++ '<' :: rest).takeWhile (· ≠ '<')) = some text.toList := by
    have free : ∀ character ∈ escape text, decide (character ≠ '<') = true :=
      fun character member => decide_eq_true fun bracket =>
        less_not_mem_escape text (bracket ▸ member)
    rw [List.takeWhile_append_of_pos free]
    simp [unescaped?_escape]
  rw [← String.toList_inj, ← Option.some_inj, ← again text rest, same, again]

/-- A written production begins with the name of its rule. -/
theorem exists_write_trees (production : Production) :
    ∃ more, writeTrees (trees production) = "<span class=\"rule\">".toList
      ++ (escape ("<" ++ production.name ++ ">") ++ '<' :: more) := by
  have filled : "<" ++ production.name ++ ">" ≠ "" := by simp
  refine ⟨"/span>".toList ++ writeTrees (.written Production.defines :: rightSide production), ?_⟩
  rw [trees_eq, writeTrees, spanRule, write_span "rule" filled]
  simp [writeAttribute, escapeQuoted, escapeCharacter]

variable {grammar : RuleSet} {collapsed : Bool} {rule other : Rule} {rules : List Rule}

/-- What stands behind the two characters that a block begins with. -/
def insideBlock (grammar : RuleSet) (collapsed : Bool) (rule : Rule) : List Char :=
  "re>".toList ++ writeTrees (trees (production grammar collapsed rule)) ++ "</pre>".toList

/-- A block begins with a bracket and the first letter of its element. -/
theorem write_entry : writeTree (entry grammar collapsed rule)
    = '<' :: 'p' :: insideBlock grammar collapsed rule := by
  obtain ⟨more, same⟩ := exists_write_trees (production grammar collapsed rule)
  simp [entry, writeTree, enclose, insideBlock, same]

/-- No further block begins within a block. -/
theorem blockless_insideBlock : Blockless ('p' :: insideBlock grammar collapsed rule) := by
  have opening : Blockless "pre>".toList := .of_not_mem (by decide)
  have closing : Blockless ('<' :: '/' :: "pre>".toList) := .bracket (by decide) (by decide)
  exact (opening.append (blockless_trees _)).append closing

/-- What follows from where a block begins among written blocks is one of them with the others
behind it. -/
theorem exists_of_suffix {tail : List Char}
    (inside : '<' :: 'p' :: tail <:+ writeTrees (rules.map (entry grammar collapsed))) :
    ∃ rule ∈ rules, ∃ rest,
      '<' :: 'p' :: tail = writeTree (entry grammar collapsed rule) ++ rest := by
  induction rules with
  | nil => exact absurd (List.suffix_nil.mp inside) (List.cons_ne_nil _ _)
  | cons rule rules inductionHypothesis =>
    rw [List.map_cons, writeTrees, write_entry, List.cons_append] at inside
    rcases List.suffix_cons_iff.mp inside with whole | later
    · exact ⟨rule, .head _, _, whole.trans (by rw [write_entry]; rfl)⟩
    · obtain ⟨other, member, found⟩ := inductionHypothesis (blockless_insideBlock _ _ later)
      exact ⟨other, .tail _ member, found⟩

/-- Blocks that begin the same text are those of rules with the same name. -/
theorem name_eq_of_append {rest more : List Char}
    (same : writeTree (entry grammar collapsed rule) ++ rest
      = writeTree (entry grammar collapsed other) ++ more) : rule.name = other.name := by
  obtain ⟨after, written⟩ := exists_write_trees (production grammar collapsed rule)
  obtain ⟨afterOther, writtenOther⟩ := exists_write_trees (production grammar collapsed other)
  simp only [write_entry, insideBlock, written, writtenOther, List.append_assoc,
    List.cons_append, List.cons_inj_right, List.append_cancel_left_eq] at same
  have bracketed : "<" ++ rule.name ++ ">" = "<" ++ other.name ++ ">" :=
    eq_of_escape_append same
  exact (String.append_right_inj _).mp ((String.append_left_inj _).mp bracketed)

/-- Of rules whose names differ, those whose blocks are found among the blocks of some of them are
these. -/
theorem infix_blocks_iff (distinct : grammar.names.Nodup)
    (some : ∀ other ∈ rules, other ∈ grammar.rules) (member : rule ∈ grammar.rules) :
    writeTree (entry grammar collapsed rule)
        <:+: writeTrees (rules.map (entry grammar collapsed)) ↔ rule ∈ rules := by
  constructor
  · intro inside
    obtain ⟨text, ⟨rest, rfl⟩, ends⟩ := List.infix_iff_prefix_suffix.mp inside
    rw [write_entry, List.cons_append, List.cons_append] at ends
    obtain ⟨other, listed, more, same⟩ := exists_of_suffix ends
    rw [← List.cons_append, ← List.cons_append, ← write_entry] at same
    have name := name_eq_of_append same
    rwa [List.inj_on_of_nodup_map distinct member (some other listed) name]
  · intro listed
    have block : [entry grammar collapsed rule] <:+: rules.map (entry grammar collapsed) :=
      (List.singleton_infix_iff _ _).mpr (List.mem_map_of_mem listed)
    have written := infix_writeTrees block
    rwa [writeTrees, writeTrees, List.append_nil] at written

end Html

end Blocks

/-- What a remark says about the use of a rule. -/
inductive Usage where
  | unused
  | collapsed
  | used
  deriving DecidableEq, Repr

/-- The class of a remark. -/
def Usage.className : Usage → String
  | .unused => "unused"
  | .collapsed => "collapsed"
  | .used => "used"

/-- The words of a remark, in front of the names of those that use the rule. -/
def Usage.words : Usage → String
  | .unused => "Unused"
  | .collapsed => "Collapsed into "
  | .used => "Used by "

/-- A remark as it is written, with the escaped names of those that use the rule. -/
def Usage.remark (usage : Usage) (users : List String) : String :=
  "<div class=\"" ++ usage.className ++ "\">" ++ usage.words
    ++ ", ".intercalate (users.map fun user => String.ofList (escape user)) ++ "</div>"

/-- Whether the joined names of the rules that refer to a rule are empty: there are none, or only a
rule without a name refers to it. -/
def RuleSet.SeemsUnused (grammar : RuleSet) (rule : Rule) : Prop :=
  rule.name ∈ grammar.unused ∨ grammar.referrers rule.name = [""]

section Remarks

/-- Joined names are empty when there are none, or only an empty one. -/
theorem intercalate_eq_empty_iff {names : List String} :
    ", ".intercalate names = "" ↔ names = [] ∨ names = [""] := by
  rw [← String.toList_eq_nil_iff, String.toList_intercalate]
  cases names with
  | nil => simp
  | cons name rest =>
    cases rest with
    | nil => simp
    | cons next more => simp [List.intercalate_cons_cons]

/-- Of joined names each one is escaped. -/
theorem escape_intercalate (names : List String) :
    escape (", ".intercalate names) = ", ".toList.intercalate (names.map escape) := by
  rw [escape, String.toList_intercalate]
  induction names with
  | nil => rfl
  | cons name rest inductionHypothesis =>
    cases rest with
    | nil => simp [escape]
    | cons next more =>
      simp only [List.map_cons, List.intercalate_cons_cons, List.flatMap_append]
        at inductionHypothesis ⊢
      rw [inductionHypothesis]
      rfl

/-- The characters of a remark. -/
theorem Usage.toList_remark (usage : Usage) (users : List String) :
    (usage.remark users).toList = "<div class=\"".toList ++ (usage.className.toList
      ++ ("\">".toList ++ (usage.words.toList
        ++ (", ".toList.intercalate (users.map escape) ++ "</div>".toList)))) := by
  have names : (users.map fun user => String.ofList (escape user)).map String.toList
      = users.map escape := by
    simp
  unfold remark
  simp only [String.toList_append, String.toList_intercalate, names, List.append_assoc]

/-- An element of the class of a remark, with its words and joined names, is written as the
remark. -/
theorem write_remark (usage : Usage) (users : List String) :
    (element "div" [("class", usage.className)]
      [.text (usage.words ++ ", ".intercalate users)]).write = usage.remark users := by
  have words : escape usage.words = usage.words.toList := by cases usage <;> rfl
  have escaped : escape (usage.words ++ ", ".intercalate users)
      = usage.words.toList ++ ", ".toList.intercalate (users.map escape) := by
    rw [← escape_intercalate, ← words, escape, String.toList_append, List.flatMap_append]
    rfl
  have content : writeTrees [.text (usage.words ++ ", ".intercalate users)]
      = usage.words.toList ++ ", ".toList.intercalate (users.map escape) := by
    rw [writeTrees, writeTrees, writeTree, escaped, List.append_nil]
  have filled : (usage.words.toList ++ ", ".toList.intercalate (users.map escape)).isEmpty
      = false := by
    cases usage <;> rfl
  have classed : writeAttribute ("class", usage.className)
      = " class=\"".toList ++ usage.className.toList ++ ['"'] := by
    cases usage <;> rfl
  rw [← String.toList_inj, write, String.toList_ofList, writeTree, content, enclose, filled,
    if_neg Bool.false_ne_true, List.flatMap_singleton, classed, Usage.toList_remark]
  simp

/-- Remarks on different uses are written differently, whichever names they give. -/
theorem Usage.eq_of_remark {first second : Usage} {users others : List String}
    (same : first.remark users = second.remark others) : first = second := by
  -- The class stands behind twelve characters, and two letters of it tell the classes apart.
  have begins (usage : Usage) (users : List String) :
      ((usage.remark users).toList.drop 12).take 2 = usage.className.toList.take 2 := by
    rw [toList_remark]
    cases usage <;> rfl
  have heads : first.className.toList.take 2 = second.className.toList.take 2 := by
    rw [← begins first users, same, begins]
  cases first <;> cases second <;> first | rfl | exact absurd heads (by decide)

end Remarks

namespace Html

variable {grammar : RuleSet} {collapsed : Bool} {rule : Rule}

/-- Whether the block of a rule is missing from the listing without remarks. -/
def Missing (grammar : RuleSet) (collapsed : Bool) (rule : Rule) : Prop :=
  ¬ (entry grammar collapsed rule).write.toList
    <:+: (View.htmlOf grammar collapsed false).text.toList

/-- What the listing of a grammar with remarks has to do with the one without remarks and with the
rules that refer to each other. -/
structure Agree (grammar : RuleSet) (collapsed : Bool) : Prop where
  annotated : (View.htmlOf grammar collapsed true).text
    = String.join (grammar.rules.map fun rule =>
      (entry grammar collapsed rule).write ++ (annotate grammar collapsed rule).write)
  plain : (View.htmlOf grammar collapsed false).text
    = String.join ((grammar.rules.filter fun rule => !isCollapsed grammar collapsed rule).map
      fun rule => (entry grammar collapsed rule).write)
  missing : ∀ rule ∈ grammar.rules,
    Missing grammar collapsed rule ↔ isCollapsed grammar collapsed rule = true
  saysUnused : ∀ rule ∈ grammar.rules,
    (annotate grammar collapsed rule).write = Usage.unused.remark [] ↔ grammar.SeemsUnused rule
  saysCollapsed : ∀ rule ∈ grammar.rules, ¬ grammar.SeemsUnused rule →
    ((annotate grammar collapsed rule).write
        = Usage.collapsed.remark (grammar.referrers rule.name)
      ↔ Missing grammar collapsed rule)
  saysUsed : ∀ rule ∈ grammar.rules, ¬ grammar.SeemsUnused rule →
    ((annotate grammar collapsed rule).write = Usage.used.remark (grammar.referrers rule.name)
      ↔ ¬ Missing grammar collapsed rule)

/-- The joined names of the rules that refer to a rule are empty when it seems to be unused. -/
theorem users_eq_empty_iff (member : rule ∈ grammar.rules) :
    ", ".intercalate (grammar.referrers rule.name) = "" ↔ grammar.SeemsUnused rule := by
  have known : rule.name ∈ grammar.names := List.mem_map_of_mem member
  have none : rule.name ∈ grammar.unused ↔ grammar.referrers rule.name = [] := by
    simp [RuleSet.unused, known]
  rw [intercalate_eq_empty_iff, RuleSet.SeemsUnused, none]

/-- The remark on a rule that seems to be unused. -/
theorem write_annotate_of_seemsUnused (member : rule ∈ grammar.rules)
    (seems : grammar.SeemsUnused rule) :
    (annotate grammar collapsed rule).write = Usage.unused.remark [] := by
  unfold annotate
  dsimp only
  rw [if_pos ((users_eq_empty_iff member).mpr seems)]
  exact write_remark .unused []

/-- The remark on any other rule. -/
theorem write_annotate (member : rule ∈ grammar.rules) (used : ¬ grammar.SeemsUnused rule) :
    (annotate grammar collapsed rule).write
      = (if isCollapsed grammar collapsed rule then Usage.collapsed else .used).remark
        (grammar.referrers rule.name) := by
  unfold annotate
  dsimp only
  rw [if_neg (mt (users_eq_empty_iff member).mp used)]
  split
  case isTrue => exact write_remark .collapsed _
  case isFalse => exact write_remark .used _

/-- A block is missing exactly when its rule collapses. -/
theorem missing_iff (distinct : grammar.names.Nodup) (member : rule ∈ grammar.rules) :
    Missing grammar collapsed rule ↔ isCollapsed grammar collapsed rule = true := by
  have found : writeTree (entry grammar collapsed rule)
      <:+: writeTrees ((listed grammar collapsed false).map (entry grammar collapsed))
        ↔ rule ∈ listed grammar collapsed false :=
    infix_blocks_iff distinct (fun other shown => (List.mem_filter.mp shown).1) member
  rw [Missing, View.htmlOf, writeAll, write, String.toList_ofList, String.toList_ofList,
    listing_eq_map, found]
  simp [listed, member]

/-- Trees are written together as they are written each. -/
theorem writeAll_eq_join (trees : List Markup) :
    writeAll trees = String.join (trees.map write) := by
  induction trees with
  | nil => rfl
  | cons tree rest inductionHypothesis =>
    rw [List.map_cons, String.join_cons, ← inductionHypothesis, writeAll, writeTrees,
      String.ofList_append]
    rfl

/-- A listing with remarks has the block of each rule with its remark behind it. -/
theorem write_listing_annotated : writeAll (listing grammar collapsed true)
    = String.join (grammar.rules.map fun rule =>
      (entry grammar collapsed rule).write ++ (annotate grammar collapsed rule).write) := by
  have all : listed grammar collapsed true = grammar.rules := by simp [listed]
  rw [writeAll_eq_join, listing, all]
  simp only [if_true]
  induction grammar.rules with
  | nil => rfl
  | cons rule rules inductionHypothesis =>
    simp [String.join_cons, inductionHypothesis, String.append_assoc]

/-- The two listings of a grammar agree with each other and with its references. The one with
remarks is every block with its remark, and the one without is the blocks of the rules that do not
collapse. A remark says of a rule that seems to be unused that it is; of any other rule it says
whether the block is missing from the listing without remarks, and gives the escaped names of the
rules that refer to it, in order. -/
theorem annotations_agree {description : Entries Json} {delist : Bool} {grammar : RuleSet}
    (distinct : description.Distinct) (valid : validate description delist = .ok grammar)
    (collapsed : Bool) : Agree grammar collapsed where
  annotated := write_listing_annotated
  plain := by
    rw [View.htmlOf, listing_eq_map, writeAll_eq_join, List.map_map]
    rfl
  missing rule member := missing_iff (names_of_validate valid ▸ distinct) member
  saysUnused rule member := by
    refine ⟨fun same => ?_, write_annotate_of_seemsUnused member⟩
    by_contra used
    rw [write_annotate member used] at same
    have usage := Usage.eq_of_remark same
    split at usage <;> contradiction
  saysCollapsed rule member used := by
    rw [missing_iff (names_of_validate valid ▸ distinct) member, write_annotate member used]
    refine ⟨fun same => ?_, fun collapses => by rw [if_pos collapses]⟩
    by_contra stays
    rw [if_neg stays] at same
    exact absurd (Usage.eq_of_remark same) (by decide)
  saysUsed rule member used := by
    rw [missing_iff (names_of_validate valid ▸ distinct) member, write_annotate member used]
    refine ⟨fun same collapses => ?_, fun stays => by rw [if_neg stays]⟩
    rw [if_pos collapses] at same
    exact absurd (Usage.eq_of_remark same) (by decide)

/-- A rule that refers to itself and to another one, which it alone refers to. -/
def escapedUser : Entries Json :=
  [("s&t", .obj [("sequence", .arr [.str "u", .obj [("zeroOrOne", .str "s&t")]])]),
    ("u", .obj [("token", .str "x")])]

/-- The rule that refers to itself. -/
def escapedUserRule : Rule :=
  ⟨"s&t", .sequence [.reference "u", .quantified .zeroOrOne (.reference "s&t")], none, true, none,
    none, ["u", "s&t"], ["s&t"]⟩

/-- The rule that it alone refers to. -/
def usedOnceRule : Rule :=
  ⟨"u", .token "x", none, true, none, none, [], ["s&t"]⟩

/-- The grammar of the two rules. -/
def escapedUserGrammar : RuleSet :=
  ⟨[escapedUserRule, usedOnceRule]⟩

/-- Only itself refers to the first rule, so it stays and is said to be used; the other one is said
to be collapsed. -/
theorem used_by_itself_annotated :
    escapedUser.Distinct ∧ validate escapedUser true = .ok escapedUserGrammar ∧
      Agree escapedUserGrammar true ∧
      (annotate escapedUserGrammar true escapedUserRule).write
        = "<div class=\"used\">Used by s&amp;t</div>" ∧
      (annotate escapedUserGrammar true usedOnceRule).write
        = "<div class=\"collapsed\">Collapsed into s&amp;t</div>" := by
  have distinct : escapedUser.Distinct := by simp [Entries.Distinct, Entries.names, escapedUser]
  have valid : validate escapedUser true = .ok escapedUserGrammar := by cbv
  have agree := annotations_agree distinct valid true
  have user : escapedUserRule ∈ escapedUserGrammar.rules := .head _
  have once : usedOnceRule ∈ escapedUserGrammar.rules := .tail _ (.head _)
  have used : ∀ rule ∈ escapedUserGrammar.rules, ¬ escapedUserGrammar.SeemsUnused rule := by
    unfold RuleSet.SeemsUnused
    decide
  have spelled (usage : Usage) : usage.remark ["s&t"]
      = "<div class=\"" ++ usage.className ++ "\">" ++ usage.words ++ "s&amp;t" ++ "</div>" := by
    rw [← String.toList_inj, Usage.toList_remark]
    simp [List.intercalate_singleton, escape, escapeCharacter]
  refine ⟨distinct, valid, agree, ?_, ?_⟩
  · have stays := mt (agree.missing _ user).mp (by decide)
    exact ((agree.saysUsed _ user (used _ user)).mpr stays).trans (spelled .used)
  · have missing := (agree.missing _ once).mpr (by decide)
    exact ((agree.saysCollapsed _ once (used _ once)).mpr missing).trans (spelled .collapsed)

/-- A rule without a name that refers to another one. -/
def namelessUser : Entries Json :=
  [("", .obj [("sequence", .arr [.str "a"])]), ("a", .obj [("token", .str "x")])]

/-- The grammar of the rule without a name. -/
def namelessUserGrammar : RuleSet :=
  ⟨[⟨"", .sequence [.reference "a"], none, true, none, none, ["a"], []⟩,
    ⟨"a", .token "x", none, true, none, none, [], [""]⟩]⟩

/-- A rule that a rule without a name refers to is said to be unused, although it is not. -/
theorem used_by_nameless_said_unused :
    namelessUser.Distinct ∧ validate namelessUser true = .ok namelessUserGrammar ∧
      ∃ rule ∈ namelessUserGrammar.rules, rule.name ∉ namelessUserGrammar.unused ∧
        (annotate namelessUserGrammar true rule).write = Usage.unused.remark [] := by
  have distinct : namelessUser.Distinct := by simp [Entries.Distinct, Entries.names, namelessUser]
  have valid : validate namelessUser true = .ok namelessUserGrammar := by cbv
  refine ⟨distinct, valid, _, .tail _ (.head _), by decide, ?_⟩
  exact write_annotate_of_seemsUnused (.tail _ (.head _)) (.inr rfl)

end Html

end GrammarView
