import GrammarView.Grammar.Construction
import GrammarView.Proofs.WellFormed

/-!
# Refusals

What comes of a description that is no grammar. The reader stops at the first thing that is wrong,
so there is never more than one diagnostic; it says truly that a rule is unknown, and whatever it
quotes stands somewhere in the rule that it names. Only an integer margin beyond the largest double
is not reported at all, and it is told here exactly when it comes to that.
-/

namespace GrammarView

namespace Json

/-- The values that stand in a value at any depth, the value itself included. -/
inductive PartOf : Json → Json → Prop where
  | self {value} : PartOf value value
  | item {part item items} (member : item ∈ items) (inside : PartOf part item) :
      PartOf part (.arr items)
  | member {part name value members} (entry : (name, value) ∈ members)
      (inside : PartOf part value) : PartOf part (.obj members)

/-- What stands in a part stands in the whole. -/
theorem PartOf.trans {part middle whole : Json} (first : part.PartOf middle)
    (second : middle.PartOf whole) : part.PartOf whole := by
  induction second with
  | self => exact first
  | item member _ inductionHypothesis => exact .item member inductionHypothesis
  | member entry _ inductionHypothesis => exact .member entry inductionHypothesis

/-- The values whose integers can be written out, which takes at most 4300 digits. -/
def Writable (value : Json) : Prop :=
  ∀ number, PartOf (.int number) value → number.natAbs < 10 ^ 4300

/-- Every part of what can be written out can be written out. -/
theorem Writable.part {part whole : Json} (writable : whole.Writable) (inside : part.PartOf whole) :
    part.Writable :=
  fun number integer => writable number (integer.trans inside)

/-- The value of a name stands in the object. -/
theorem partOf_of_get? {members : Entries Json} {name : String} {value : Json}
    (found : members.get? name = some value) : value.PartOf (.obj members) :=
  .member (Entries.mem_of_get? found) .self

end Json

/-- The value that the message of a problem quotes. -/
def Problem.quoted? : Problem → Option Json
  | .badValue _ value | .badElement _ _ value | .invalidObject value | .notFlag _ value
  | .notNumber _ value => some value
  | _ => none

/-- What a problem says is so: a rule that it calls unknown is none of the names, and what it
quotes stands in the value that has the problem. -/
structure Problem.Arises (names : List String) (value : Json) (problem : Problem) : Prop where
  unknown : ∀ tag target, problem = .unknownRule tag target → target ∉ names
  quoted : ∀ part, problem.quoted? = some part → part.PartOf value

namespace Problem

variable {names : List String} {value : Json} {problem : Problem}

/-- A problem of a part is one of what the part stands in. -/
theorem Arises.inside {outer : Json} (arises : problem.Arises names value)
    (inside : value.PartOf outer) : problem.Arises names outer :=
  ⟨arises.unknown, fun part same => (arises.quoted part same).trans inside⟩

/-- A problem that quotes a part arises where the part stands. -/
theorem Arises.of_quoted {part : Json} (quoted : problem.quoted? = some part)
    (inside : part.PartOf value) : problem.Arises names value where
  unknown := by
    rintro tag target rfl
    contradiction
  quoted := by
    intro other same
    rw [quoted] at same
    exact Option.some.inj same ▸ inside

/-- A problem that quotes nothing and calls no rule unknown may arise anywhere. -/
theorem Arises.of_unquoted (unquoted : problem.quoted? = none)
    (known : ∀ tag target, problem ≠ .unknownRule tag target) : problem.Arises names value where
  unknown tag target same := absurd same (known tag target)
  quoted part same := absurd (unquoted.symm.trans same) (Option.some_ne_none part).symm

end Problem

namespace Validation

section Errors

variable {α β ε : Type} {failure : ε}

/-- A changed outcome is a failure when the outcome is. -/
theorem map_eq_error {outcome : Except ε α} {change : α → β} :
    change <$> outcome = .error failure ↔ outcome = .error failure := by
  cases outcome <;> simp [Functor.map, Except.map]

/-- A continued outcome is a failure when the outcome is, or what follows it. -/
theorem bind_eq_error {outcome : Except ε α} {next : α → Except ε β} :
    outcome >>= next = .error failure ↔
      outcome = .error failure ∨ ∃ value, outcome = .ok value ∧ next value = .error failure := by
  cases outcome <;> simp [bind, Except.bind]

/-- Returning a value does not fail. -/
theorem pure_ne_error {value : α} : (pure value : Except ε α) ≠ .error failure :=
  nofun

end Errors

section Problems

variable {scope : Scope} {whole : Bool} {value : Json} {tag : String} {problem : Problem}

/-- A refused reference is to no name. -/
theorem arises_of_readReference {target : String}
    (refused : readReference scope tag target = .error problem) :
    problem.Arises scope.names value := by
  unfold readReference at refused
  split at refused
  case isTrue => contradiction
  case isFalse absent =>
    cases Except.error.inj refused
    refine ⟨?_, nofun⟩
    rintro _ _ ⟨⟩ known
    exact absent (List.contains_iff_mem.mpr known)

/-- What is refused among texts is quoted. -/
theorem arises_of_readTexts {names : List String} {index : Nat} {values items : List Json}
    (among : values ⊆ items) (refused : readTexts tag index values = .error problem) :
    problem.Arises names (.arr items) := by
  fun_induction readTexts tag index values with
  | case1 => contradiction
  | case2 index text rest inductionHypothesis =>
    exact inductionHypothesis (List.subset_of_cons_subset among) (map_eq_error.mp refused)
  | case3 index value rest =>
    cases Except.error.inj refused
    exact .of_quoted rfl (.item (among (.head _)) .self)

/-- A list is refused for its separator or for a name. -/
theorem arises_of_readList {item : String} {separator : Except Problem Reading}
    (between : ∀ problem, separator = .error problem → problem.Arises scope.names value)
    (refused : readList scope whole tag item separator = .error problem) :
    problem.Arises scope.names value := by
  unfold readList at refused
  split at refused
  · rcases bind_eq_error.mp refused with first | ⟨name, -, refused⟩
    · exact arises_of_readReference first
    rcases bind_eq_error.mp refused with second | ⟨reading, -, refused⟩
    · exact between problem second
    split at refused
    · rcases bind_eq_error.mp refused with third | ⟨own, -, refused⟩
      · exact arises_of_readReference third
      · contradiction
    · contradiction
  · rcases bind_eq_error.mp refused with first | ⟨reading, -, refused⟩
    · exact between problem first
    rcases bind_eq_error.mp refused with second | ⟨name, -, refused⟩
    · exact arises_of_readReference second
    · contradiction

/-- A part is refused for a reason that lies in it, if this holds of objects. -/
theorem arises_of_readPart {index : Option Nat}
    (node : readNode scope false value = .error problem → problem.Arises scope.names value)
    (refused : readPart scope tag index value = .error problem) :
    problem.Arises scope.names value := by
  rw [readPart.eq_def] at refused
  split at refused
  · exact arises_of_readReference (map_eq_error.mp refused)
  · exact node refused
  · cases Except.error.inj refused
    cases index <;> exact .of_quoted rfl .self

/-- Items are refused for a reason that lies in them, if this holds of the objects among them. -/
theorem arises_of_readItems {index : Nat} {values items : List Json} (among : values ⊆ items)
    (nodes : ∀ value ∈ items, ∀ problem,
      readNode scope false value = .error problem → problem.Arises scope.names value)
    (refused : readItems scope tag index values = .error problem) :
    problem.Arises scope.names (.arr items) := by
  induction values generalizing index with
  | nil =>
    rw [readItems] at refused
    contradiction
  | cons value rest inductionHypothesis =>
    have member : value ∈ items := among (.head _)
    rw [readItems] at refused
    rcases bind_eq_error.mp refused with first | ⟨reading, -, refused⟩
    · have arises := arises_of_readPart (nodes value member problem) first
      exact arises.inside (.item member .self)
    rcases bind_eq_error.mp refused with others | ⟨readings, -, refused⟩
    · exact inductionHypothesis (List.subset_of_cons_subset among) others
    · contradiction

/-- An array is refused for a reason that lies in it, if this holds of all that is smaller. -/
theorem arises_of_readParts
    (nodes : ∀ smaller, sizeOf smaller < sizeOf value → ∀ problem,
      readNode scope false smaller = .error problem → problem.Arises scope.names smaller)
    (refused : readParts scope tag value = .error problem) :
    problem.Arises scope.names value := by
  rw [readParts.eq_def] at refused
  split at refused
  case h_1 =>
    have smaller := fun value member => nodes value (sizeOf_lt_of_mem member)
    exact arises_of_readItems (List.Subset.refl _) smaller refused
  case h_2 =>
    cases Except.error.inj refused
    exact .of_unquoted rfl (by simp)

/-- A body is refused for a reason that lies in it. -/
theorem arises_of_readNode (refused : readNode scope whole value = .error problem) :
    problem.Arises scope.names value := by
  induction value using sizeInduction generalizing whole problem with
  | step value inductionHypothesis =>
  rw [readNode.eq_def] at refused
  split at refused
  case h_2 =>
    cases Except.error.inj refused
    exact .of_quoted rfl .self
  case h_1 members =>
    split at refused
    case h_1 =>
      cases Except.error.inj refused
      exact .of_quoted rfl .self
    case h_3 =>
      cases Except.error.inj refused
      exact .of_unquoted rfl (by simp)
    case h_2 word content single =>
      have smaller := sizeOf_tagged_lt single
      have inside : content.PartOf (.obj members) := by
        have listed : (word, content) ∈ tagged members := single ▸ List.mem_singleton.mpr rfl
        exact .member (List.mem_of_mem_filter listed) .self
      have nodes : ∀ part, sizeOf part < sizeOf content → ∀ problem,
          readNode scope false part = .error problem → problem.Arises scope.names part :=
        fun part below _ => inductionHypothesis part (Nat.lt_trans below smaller)
      split at refused
      case h_1 =>
        cases Except.error.inj refused
        exact .of_unquoted rfl (by simp)
      case h_2 leaf tag =>
        split at refused
        · contradiction
        · cases Except.error.inj refused
          exact .of_quoted rfl inside
      case h_3 tag =>
        split at refused
        case h_1 =>
          have texts := map_eq_error.mp refused
          exact (arises_of_readTexts (List.Subset.refl _) texts).inside inside
        case h_2 =>
          cases Except.error.inj refused
          exact .of_unquoted rfl (by simp)
      case h_4 tag =>
        exact (arises_of_readParts nodes (map_eq_error.mp refused)).inside inside
      case h_5 tag =>
        exact (arises_of_readParts nodes (map_eq_error.mp refused)).inside inside
      case h_6 quantifier tag =>
        have part := arises_of_readPart (inductionHypothesis content smaller)
          (map_eq_error.mp refused)
        exact part.inside inside
      case h_7 tag =>
        split at refused
        case h_2 =>
          cases Except.error.inj refused
          exact .of_unquoted rfl (by simp)
        case h_1 =>
          split at refused
          case h_1 =>
            cases Except.error.inj refused
            exact .of_unquoted rfl (by simp)
          case h_2 between separated =>
            refine arises_of_readList (fun problem bad => ?_) refused
            have arises := inductionHypothesis between (Json.sizeOf_lt_of_get? separated) bad
            exact arises.inside (Json.partOf_of_get? separated)

section Settings

variable {members : Entries Json} {setting : String} {names : List String}

/-- What is refused as a flag is quoted. -/
theorem arises_of_readFlag (refused : readFlag members setting = .error problem) :
    problem.Arises names (.obj members) := by
  unfold readFlag at refused
  split at refused
  case h_4 value _ _ found =>
    cases Except.error.inj refused
    exact .of_quoted rfl (Json.partOf_of_get? found)
  all_goals contradiction

theorem arises_of_readInline (refused : readInline members = .error problem) :
    problem.Arises names (.obj members) := by
  unfold readInline at refused
  rcases bind_eq_error.mp refused with first | ⟨inlined, -, refused⟩
  · exact arises_of_readFlag first
  split at refused
  · exact arises_of_readFlag refused
  · contradiction

/-- All of a rule but its margins is refused for a reason that lies in it. -/
theorem arises_of_readBody (refused : readBody scope value = .error problem) :
    problem.Arises scope.names value := by
  unfold readBody at refused
  rcases bind_eq_error.mp refused with first | ⟨reading, node, refused⟩
  · exact arises_of_readNode first
  obtain ⟨members, rfl, -⟩ := readNode_eq_ok.mp node
  rcases bind_eq_error.mp refused with second | ⟨inlined, -, refused⟩
  · exact arises_of_readInline second
  rcases bind_eq_error.mp refused with third | ⟨railroad, -, refused⟩
  · exact arises_of_readFlag third
  · contradiction

/-- An integer setting that no double can hold. -/
def Oversize (members : Entries Json) (setting : String) : Prop :=
  ∃ number, members.get? setting = some (.int number) ∧ ¬ FitsDouble number

/-- Exactly the margins that some double can hold are read. -/
theorem exists_readMargin_iff {rule : String} :
    (∃ margin, readMargin rule members setting = .ok margin) ↔
      IsMargin members setting ∧ ¬ Oversize members setting := by
  unfold readMargin IsMargin Oversize
  cases found : members.get? setting with
  | none => simp
  | some value =>
    cases value with
    | int number =>
      have holds := ofInt?_isSome_iff number
      cases nearest : Double.ofInt? number <;> simp_all
    | _ => simp

/-- A margin can end everything without a report only when no double can hold it. -/
theorem readMargin_tooLarge_iff {rule : String} :
    readMargin rule members setting = .error .marginTooLarge ↔ Oversize members setting := by
  unfold readMargin Oversize
  cases found : members.get? setting with
  | none => simp
  | some value =>
    cases value with
    | int number =>
      have holds := ofInt?_isSome_iff number
      cases nearest : Double.ofInt? number <;> simp_all
    | _ => simp

/-- What is refused as a margin is quoted. -/
theorem arises_of_readMargin {rule : String} {diagnostic : Diagnostic}
    (refused : readMargin rule members setting = .error (.malformed diagnostic)) :
    diagnostic.rule = rule ∧ diagnostic.problem.Arises names (.obj members) := by
  unfold readMargin at refused
  split at refused
  case h_4 =>
    split at refused
    · contradiction
    · cases Except.error.inj refused
  case h_5 value _ _ _ found =>
    cases Failure.malformed.inj (Except.error.inj refused)
    exact ⟨rfl, .of_quoted rfl (Json.partOf_of_get? found)⟩
  all_goals contradiction

end Settings

end Problems

/-- The values whose margin ends everything without a report: nothing is wrong with them before the
reader comes to an integer margin that no double can hold. -/
structure Overflows (names : List String) (value : Json) : Prop where
  body : WellFormed names false value
  inline : IsFlag (membersOf value) "inline"
  collapse : Unset (membersOf value) "inline" → IsFlag (membersOf value) "collapse"
  railroad : IsFlag (membersOf value) "railroad"
  margin : Oversize (membersOf value) "left" ∨
    (IsMargin (membersOf value) "left" ∧ ¬ Oversize (membersOf value) "left") ∧
      Oversize (membersOf value) "right"

/-- The first of several named values that describes no rule, or none that can be read, is one
whose margin ends everything. -/
def FirstOverflows (names : List String) (entries : Entries Json) : Prop :=
  ∃ before name value after, entries = before ++ (name, value) :: after ∧
    (∀ entry ∈ before, DescribesRule names entry.2 ∧ MarginsFit entry.2) ∧ Overflows names value

section Rules

variable {names : List String} {delist : Bool} {name : String} {value : Json} {rule : Rule}
  {diagnostic : Diagnostic}

/-- Margins fit exactly when doubles can hold them. -/
theorem marginsFit_iff :
    MarginsFit value ↔
      ¬ Oversize (membersOf value) "left" ∧ ¬ Oversize (membersOf value) "right" := by
  simp [MarginsFit, Oversize]

/-- The margins of a rule fit doubles. -/
theorem ReadsRule.marginsFit (reads : ReadsRule names delist name value rule) :
    MarginsFit value := by
  cases reads with
  | rule body inlineFlags railroadFlag leftMargin rightMargin =>
    have left := (exists_readMargin_iff.mp ⟨_, leftMargin⟩).2
    have right := (exists_readMargin_iff.mp ⟨_, rightMargin⟩).2
    exact marginsFit_iff.mpr ⟨left, right⟩

/-- A rule is read exactly when its value describes one and doubles can hold its margins. -/
theorem exists_readRule_iff (own : name ∈ names) :
    (∃ rule, readRule names delist name value = .ok rule) ↔
      DescribesRule names value ∧ MarginsFit value := by
  constructor
  · rintro ⟨rule, read⟩
    have fits := (readRule_eq_ok.mp read).1.marginsFit
    rcases readRule_outcome delist own fits with ⟨-, -, described⟩ | ⟨problem, bad, -⟩
    · exact ⟨described, fits⟩
    · rw [bad] at read
      contradiction
  · rintro ⟨described, fits⟩
    rcases readRule_outcome delist own fits with ⟨rule, read, -⟩ | ⟨-, -, malformed⟩
    · exact ⟨rule, read⟩
    · exact absurd described malformed

/-- A rule ends everything without a report exactly when one of its margins does. -/
theorem readRule_tooLarge_iff (own : name ∈ names) :
    readRule names delist name value = .error .marginTooLarge ↔ Overflows names value := by
  have body : (∃ checked, readBody ⟨name, names, delist⟩ value = .ok checked) ↔ _ :=
    exists_readBody_iff delist own
  unfold readRule
  cases read : readBody ⟨name, names, delist⟩ value with
  | error problem =>
    refine iff_of_false nofun fun overflows => ?_
    have flags := And.intro overflows.inline overflows.collapse
    obtain ⟨checked, success⟩ := body.mpr ⟨overflows.body, flags, overflows.railroad⟩
    rw [read] at success
    contradiction
  | ok checked =>
    obtain ⟨formed, ⟨inline, collapse⟩, railroad⟩ := body.mp ⟨checked, read⟩
    simp only [bind_eq_error, readMargin_tooLarge_iff, pure_ne_error, and_false, exists_false,
      or_false]
    rw [exists_and_right, exists_readMargin_iff]
    exact ⟨fun margin => ⟨formed, inline, collapse, railroad, margin⟩, Overflows.margin⟩

/-- The diagnostic for a rule names it and is about its value. -/
theorem arises_of_readRule
    (refused : readRule names delist name value = .error (.malformed diagnostic)) :
    diagnostic.rule = name ∧ diagnostic.problem.Arises names value := by
  unfold readRule at refused
  split at refused
  case h_1 problem bad =>
    cases Failure.malformed.inj (Except.error.inj refused)
    exact ⟨rfl, arises_of_readBody bad⟩
  case h_2 checked body =>
    obtain ⟨reading, node, -⟩ := bind_eq_ok.mp body
    obtain ⟨members, rfl, -⟩ := readNode_eq_ok.mp node
    rcases bind_eq_error.mp refused with left | ⟨margin, -, refused⟩
    · exact arises_of_readMargin left
    rcases bind_eq_error.mp refused with right | ⟨margin, -, refused⟩
    · exact arises_of_readMargin right
    · contradiction

/-- Reading rules ends without a report exactly when the first that cannot be read does. -/
theorem readRules_tooLarge_iff {entries : Entries Json}
    (own : ∀ entry ∈ entries, entry.1 ∈ names) (delist : Bool) :
    readRules names delist entries = .error .marginTooLarge ↔ FirstOverflows names entries := by
  induction entries with
  | nil =>
    refine iff_of_false nofun ?_
    rintro ⟨before, name, value, after, entries, -⟩
    simp at entries
  | cons entry rest inductionHypothesis =>
    obtain ⟨ownFirst, ownOthers⟩ := List.forall_mem_cons.mp own
    rw [readRules]
    simp only [bind_eq_error, pure_ne_error, and_false, exists_false, or_false,
      readRule_tooLarge_iff ownFirst]
    rw [exists_and_right, exists_readRule_iff ownFirst, inductionHypothesis ownOthers]
    constructor
    · rintro (overflows | ⟨first, before, name, value, after, rfl, all, overflows⟩)
      · exact ⟨[], entry.1, entry.2, rest, rfl, List.forall_mem_nil _, overflows⟩
      · exact ⟨entry :: before, name, value, after, rfl, List.forall_mem_cons.mpr ⟨first, all⟩,
          overflows⟩
    · rintro ⟨before, name, value, after, same, all, overflows⟩
      cases before with
      | nil =>
        obtain ⟨rfl, rfl⟩ := List.cons.inj same
        exact .inl overflows
      | cons first before =>
        obtain ⟨rfl, rfl⟩ := List.cons.inj same
        obtain ⟨described, others⟩ := List.forall_mem_cons.mp all
        exact .inr ⟨described, before, name, value, after, rfl, others, overflows⟩

/-- The diagnostic for several rules names one of them and is about its value. -/
theorem arises_of_readRules {entries : Entries Json}
    (refused : readRules names delist entries = .error (.malformed diagnostic)) :
    ∃ value, (diagnostic.rule, value) ∈ entries ∧ diagnostic.problem.Arises names value := by
  induction entries with
  | nil => contradiction
  | cons entry rest inductionHypothesis =>
    rw [readRules] at refused
    rcases bind_eq_error.mp refused with first | ⟨rule, -, refused⟩
    · obtain ⟨same, arises⟩ := arises_of_readRule first
      exact ⟨entry.2, same ▸ .head _, arises⟩
    rcases bind_eq_error.mp refused with others | ⟨rules, -, refused⟩
    · obtain ⟨value, member, arises⟩ := inductionHypothesis others
      exact ⟨value, .tail _ member, arises⟩
    · contradiction

end Rules

end Validation

/-- Validation ends without a report exactly when reading its rules does. -/
theorem construct_tooLarge_iff (description : Entries Json) (delist : Bool) :
    construct description delist = .error .marginTooLarge ↔
      Validation.FirstOverflows description.names description := by
  have own : ∀ entry ∈ description, entry.1 ∈ description.names :=
    fun _ member => List.mem_map_of_mem member
  rw [← Validation.readRules_tooLarge_iff own delist]
  unfold construct validate
  cases Validation.readRules description.names delist description with
  | ok rules => exact iff_of_false nofun nofun
  | error failure => cases failure <;> simp [Functor.map, Except.map]

/-- A diagnostic that tells what is wrong with a description: it is about one of the rules, what it
quotes can be written out, and it is a warning when a rule is unknown, which is true then, and an
error otherwise. -/
structure Diagnostic.Reports (description : Entries Json) (diagnostic : Diagnostic) : Prop where
  known : diagnostic.rule ∈ description.names
  quoted : ∀ part, diagnostic.problem.quoted? = some part → part.Writable
  message : (Notice.diagnostic diagnostic).message = diagnostic.text
  level : ((Notice.diagnostic diagnostic).level = "WARNING" ∧
      ∃ tag target, diagnostic.problem = .unknownRule tag target ∧ target ∉ description.names) ∨
    ((Notice.diagnostic diagnostic).level = "ERROR" ∧
      ∀ tag target, diagnostic.problem ≠ .unknownRule tag target)

/-- A problem that arises in a value is reported as it should be. -/
theorem Problem.Arises.reports {description : Entries Json} {diagnostic : Diagnostic} {value : Json}
    (arises : diagnostic.problem.Arises description.names value)
    (member : (diagnostic.rule, value) ∈ description) (writable : value.Writable) :
    diagnostic.Reports description where
  known := List.mem_map_of_mem member
  quoted part same := writable.part (arises.quoted part same)
  message := rfl
  level := by
    obtain ⟨rule, problem⟩ := diagnostic
    cases problem with
    | unknownRule tag target => exact .inl ⟨rfl, tag, target, rfl, arises.unknown tag target rfl⟩
    | _ => exact .inr ⟨rfl, nofun⟩

/-- Validation gives a grammar and reports nothing, or gives none and reports the one diagnostic
that tells what is wrong, except where the reader comes to a margin that no double can hold. -/
theorem validation_fails_closed {description : Entries Json}
    (writable : ∀ entry ∈ description, entry.2.Writable) (delist : Bool) :
    (construct description delist = .error .marginTooLarge ↔
        Validation.FirstOverflows description.names description) ∧
      (¬ Validation.FirstOverflows description.names description →
        (∃ grammar, construct description delist = .ok ⟨some grammar, []⟩) ∨
          ∃ diagnostic, construct description delist = .ok ⟨none, [.diagnostic diagnostic]⟩ ∧
            diagnostic.Reports description) := by
  refine ⟨construct_tooLarge_iff description delist, fun reported => ?_⟩
  rw [← construct_tooLarge_iff description delist] at reported
  unfold construct validate at reported ⊢
  cases read : Validation.readRules description.names delist description with
  | ok rules => exact .inl ⟨_, rfl⟩
  | error failure =>
    cases failure with
    | marginTooLarge =>
      rw [read] at reported
      exact absurd rfl reported
    | malformed diagnostic =>
      obtain ⟨value, member, arises⟩ := Validation.arises_of_readRules read
      exact .inr ⟨diagnostic, rfl, arises.reports member (writable _ member)⟩

/-- A rule with an integer where a text should be. -/
def numbered (number : Int) : Entries Json :=
  [("digits", .obj [("token", .int number), ("left", .int 2)])]

/-- An integer that is no margin is quoted in a diagnostic, also one beyond the largest double. -/
theorem large_token_reported :
    (∀ entry ∈ numbered (10 ^ 400), entry.2.Writable) ∧
      ∃ diagnostic, construct (numbered (10 ^ 400)) false = .ok ⟨none, [.diagnostic diagnostic]⟩ ∧
        diagnostic.Reports (numbered (10 ^ 400)) := by
  have writable : ∀ entry ∈ numbered (10 ^ 400), entry.2.Writable := by
    intro entry member number inside
    obtain rfl := List.mem_singleton.mp member
    cases inside with
    | member entry inside =>
      simp only [List.mem_cons, List.not_mem_nil, or_false, Prod.mk.injEq] at entry
      rcases entry with ⟨-, rfl⟩ | ⟨-, rfl⟩ <;> cases inside <;> decide +kernel
  have refused (number : Int) : construct (numbered number) false =
      .ok ⟨none, [.diagnostic ⟨"digits", .badValue "token" (.int number)⟩]⟩ := by cbv
  obtain ⟨exactly, outcomes⟩ := validation_fails_closed writable false
  have returned : construct (numbered (10 ^ 400)) false ≠ .error .marginTooLarge := by
    intro raised
    cases (refused (10 ^ 400)).symm.trans raised
  have reported := mt exactly.mpr returned
  rcases outcomes reported with ⟨grammar, accepted⟩ | diagnostic
  · rw [refused] at accepted
    cases accepted
  · exact ⟨writable, diagnostic⟩

/-- A rule with an integer margin. -/
def margined (margin : Int) : Entries Json :=
  [("a", .obj [("token", .str "x"), ("left", .int margin)])]

/-- A margin that no double can hold leads neither to a grammar nor to a diagnostic. -/
theorem large_margin_not_reported :
    ¬ ((∃ grammar, construct (margined (10 ^ 400)) false = .ok ⟨some grammar, []⟩) ∨
      ∃ diagnostic,
        construct (margined (10 ^ 400)) false = .ok ⟨none, [.diagnostic diagnostic]⟩) := by
  have beyond : ¬ FitsDouble (10 ^ 400) := by decide +kernel
  have raised {margin : Int} (large : ¬ FitsDouble margin) :
      construct (margined margin) false = .error .marginTooLarge := by
    have overflows : Validation.Overflows (margined margin).names
        (.obj [("token", .str "x"), ("left", .int margin)]) := by
      refine ⟨.text (by cbv) (.head _), ?_, ?_, ?_, .inl ⟨margin, by cbv, large⟩⟩
      all_goals simp [Validation.IsFlag, Validation.membersOf, Entries.get?]
    exact (construct_tooLarge_iff _ false).mpr
      ⟨[], "a", _, [], rfl, List.forall_mem_nil _, overflows⟩
  rw [raised beyond]
  rintro (⟨grammar, ⟨⟩⟩ | ⟨diagnostic, ⟨⟩⟩)

end GrammarView
