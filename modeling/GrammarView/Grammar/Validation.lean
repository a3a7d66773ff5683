import GrammarView.Grammar.Diagnostic
import GrammarView.Grammar.RuleSet
import GrammarView.Grammar.Tag

/-!
# Validation

Turns the description of each rule into a rule. The parts of a description are checked in a fixed
order and the first problem stops everything: either every rule is well formed and refers only to
rules of the description, or there is one diagnostic and no rule at all.

On request a list is read as the recursion it abbreviates: a rule that is a list becomes a choice
between its item and itself followed by separator and item.
-/

namespace GrammarView.Validation

/-- What reading a part gives: its expression and the names it refers to, in the order in which
they were met. -/
structure Reading where
  expr : Expr
  references : List String

/-- What reading several parts gives. -/
structure Readings where
  exprs : List Expr
  references : List String

/-- The rule whose body is read: its name, the names that may be referred to, and whether lists
are read as the recursion they abbreviate. -/
structure Scope where
  rule : String
  names : List String
  delist : Bool

/-- A part without references. -/
def Reading.leaf (expr : Expr) : Reading :=
  ⟨expr, []⟩

/-- A reference has to be to one of the names. -/
def readReference (scope : Scope) (tag target : String) : Except Problem String :=
  if scope.names.contains target then .ok target else .error (.unknownRule tag target)

/-- The texts of an array. -/
def readTexts (tag : String) (index : Nat) : List Json → Except Problem (List String)
  | [] => .ok []
  | .str text :: rest => (text :: ·) <$> readTexts tag (index + 1) rest
  | value :: _ => .error (.badElement tag index value)

/-- The members of a part that are no settings: its tags with their values. -/
def tagged (members : Entries Json) : Entries Json :=
  members.filter fun member => !Tag.settings.contains member.1

/-- The complaint about a part that is neither a name nor an object. -/
def badPart (tag : String) (index : Option Nat) (value : Json) : Problem :=
  match index with
  | some index => .badElement tag index value
  | none => .badValue tag value

/-- The value of a tag is smaller than the part. -/
theorem sizeOf_tagged_lt {members : Entries Json} {tag : String} {value : Json}
    {rest : Entries Json} (found : tagged members = (tag, value) :: rest) :
    sizeOf value < sizeOf (Json.obj members) := by
  have member : (tag, value) ∈ members := by
    have listed : (tag, value) ∈ tagged members := by simp [found]
    exact (List.mem_filter.mp listed).1
  have smaller := List.sizeOf_lt_of_mem member
  simp only [Json.obj.sizeOf_spec, Prod.mk.sizeOf_spec] at smaller ⊢
  omega

/-- A list that stands for itself. -/
def keepList (item : String) (separator : Reading) : Reading :=
  ⟨.list item separator.expr, separator.references ++ [item]⟩

/-- The recursion that a rule which is a list abbreviates: its item, or itself, the separator and
the item. -/
def delistRule (rule item : String) (separator : Reading) : Reading :=
  ⟨.choice [.reference item, .sequence [.reference rule, separator.expr, .reference item]],
    item :: separator.references ++ [rule]⟩

/-- The repetition that a list inside a rule abbreviates, as it has no rule of its own to recur
to. -/
def delistPart (item : String) (separator : Reading) : Reading :=
  ⟨.sequence [.reference item,
      .quantified .zeroOrMore (.sequence [separator.expr, .reference item])],
    item :: separator.references⟩

/-- Reads a list whose separator has been read. A list that stands for itself is told first about
its separator, any other first about its item. -/
def readList (scope : Scope) (whole : Bool) (tag item : String)
    (separator : Except Problem Reading) : Except Problem Reading :=
  if scope.delist then do
    let item ← readReference scope tag item
    let separator ← separator
    if whole then
      let rule ← readReference scope tag scope.rule
      return delistRule rule item separator
    else return delistPart item separator
  else do
    let separator ← separator
    let item ← readReference scope tag item
    return keepList item separator

mutual

/-- Reads a part that has to be an object with one tag. `whole` says that it is a whole body. -/
def readNode (scope : Scope) (whole : Bool) (value : Json) : Except Problem Reading :=
  match value with
  | .obj members =>
    match _found : tagged members with
    | [] => .error (.invalidObject value)
    | [(tag, content)] =>
      match Tag.ofWord? tag with
      | none => .error (.invalidTag tag)
      | some (.leaf leaf) =>
        match content with
        | .str text => .ok (.leaf (leaf.expr text))
        | content => .error (.badValue tag content)
      | some .tokens =>
        match content with
        | .arr items => (fun texts => .leaf (.tokens texts)) <$> readTexts tag 0 items
        | _ => .error (.notArray tag)
      | some .sequence =>
        (fun parts => ⟨.sequence parts.exprs, parts.references⟩) <$> readParts scope tag content
      | some .choice =>
        (fun parts => ⟨.choice parts.exprs, parts.references⟩) <$> readParts scope tag content
      | some (.quantified quantifier) =>
        (fun part => ⟨.quantified quantifier part.expr, part.references⟩)
          <$> readPart scope tag none content
      | some .list =>
        match content with
        | .str item =>
          match _separated : Entries.get? members "separator" with
          | none => .error (.missingSeparator tag)
          | some separator =>
            readList scope whole tag item (readNode scope false separator)
        | _ => .error (.notText tag)
    | _ => .error (.severalTags (tagged members).names)
  | value => .error (.invalidObject value)
termination_by (sizeOf value, 0)
decreasing_by
  · exact Prod.Lex.left _ _ (sizeOf_tagged_lt _found)
  · exact Prod.Lex.left _ _ (sizeOf_tagged_lt _found)
  · exact Prod.Lex.left _ _ (sizeOf_tagged_lt _found)
  · exact Prod.Lex.left _ _ (Json.sizeOf_lt_of_get? _separated)

/-- Reads a part that is a name or an object. The index tells its place in an array. -/
def readPart (scope : Scope) (tag : String) (index : Option Nat) (value : Json) :
    Except Problem Reading :=
  match value with
  | .str target =>
    (fun name => ⟨.reference name, [name]⟩) <$> readReference scope tag target
  | .obj members => readNode scope false (.obj members)
  | value => .error (badPart tag index value)
termination_by (sizeOf value, 1)

/-- Reads an array of parts. -/
def readParts (scope : Scope) (tag : String) (value : Json) : Except Problem Readings :=
  match value with
  | .arr items => readItems scope tag 0 items
  | _ => .error (.notArray tag)
termination_by (sizeOf value, 0)

/-- Reads the remaining parts of an array, the first of which has the given index. -/
def readItems (scope : Scope) (tag : String) (index : Nat) (items : List Json) :
    Except Problem Readings :=
  match items with
  | [] => .ok ⟨[], []⟩
  | item :: rest => do
    let first ← readPart scope tag (some index) item
    let others ← readItems scope tag (index + 1) rest
    return ⟨first.expr :: others.exprs, first.references ++ others.references⟩
termination_by (sizeOf items, 0)

end

/-- A setting that is true, false, or not given. -/
def readFlag (members : Entries Json) (setting : String) : Except Problem (Option Bool) :=
  match members.get? setting with
  | none | some .null => .ok none
  | some (.bool value) => .ok (some value)
  | some value => .error (.notFlag setting value)

/-- The reasons for which there are no rules. -/
inductive Failure where
  /-- A rule is not well formed. -/
  | malformed (diagnostic : Diagnostic)
  /-- An integer margin lies beyond the largest double. -/
  | marginTooLarge

/-- A setting that is a number, or not given. -/
def readMargin (rule : String) (members : Entries Json) (setting : String) :
    Except Failure (Option Float) :=
  match members.get? setting with
  | none | some .null => .ok none
  | some (.real value) => .ok (some value)
  | some (.int value) =>
    match Double.ofInt? value with
    | some value => .ok (some value)
    | none => .error .marginTooLarge
  | some value => .error (.malformed ⟨rule, .notNumber setting value⟩)

/-- The members of an object; other values have none. -/
def membersOf : Json → Entries Json
  | .obj members => members
  | _ => []

/-- The body of a rule with the flags among its settings. -/
structure Checked where
  body : Reading
  inline : Option Bool
  railroad : Bool

/-- Whether a rule is to be shown in the place of its references. Of the two settings for this the
first one that is given counts. -/
def readInline (members : Entries Json) : Except Problem (Option Bool) := do
  let inlined ← readFlag members "inline"
  if inlined.isNone then readFlag members "collapse" else return inlined

/-- Reads all of a rule but its margins. A rule of alternatives is never inlined. -/
def readBody (scope : Scope) (value : Json) : Except Problem Checked := do
  let body ← readNode scope true value
  let members := membersOf value
  let inlined ← readInline members
  let railroad ← readFlag members "railroad"
  let inline := if body.expr.isAlternative then some false else inlined
  return ⟨body, inline, railroad != some false⟩

/-- Reads a rule. Which rules refer to it is not known before all of them have been read. -/
def readRule (names : List String) (delist : Bool) (name : String) (value : Json) :
    Except Failure Rule :=
  match readBody ⟨name, names, delist⟩ value with
  | .error problem => .error (.malformed ⟨name, problem⟩)
  | .ok checked => do
    let left ← readMargin name (membersOf value) "left"
    let right ← readMargin name (membersOf value) "right"
    return {
      name
      body := checked.body.expr
      inline := checked.inline
      railroad := checked.railroad
      left
      right
      references := checked.body.references.eraseDups
      referrers := [] }

/-- Reads rules one after the other. -/
def readRules (names : List String) (delist : Bool) : Entries Json → Except Failure (List Rule)
  | [] => .ok []
  | (name, value) :: rest => do
    let rule ← readRule names delist name value
    let rules ← readRules names delist rest
    return rule :: rules

end Validation

/-- The rule set that a mapping of rules describes, or the reason why it describes none. When every
rule has been read, the rules that refer to it are filled in at each of them. -/
def validate (description : Entries Json) (delist : Bool) : Except Validation.Failure RuleSet :=
  (fun rules => (RuleSet.mk rules).withReferrers)
    <$> Validation.readRules description.names delist description

end GrammarView
