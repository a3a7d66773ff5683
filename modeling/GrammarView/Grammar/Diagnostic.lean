import GrammarView.Json.Writer

/-!
# Diagnostics

What keeps a description from being a grammar. A diagnostic names the rule and the problem; a
reference to a rule that does not exist is only a warning, all other problems are errors.
-/

namespace GrammarView

/-- How grave a diagnostic is. -/
inductive Severity where
  | warning
  | error
  deriving DecidableEq, Repr

/-- The word for a severity. -/
def Severity.word : Severity → String
  | .warning => "warning"
  | .error => "error"

/-- The problems of a rule's description. Tags and settings are given by their words. -/
inductive Problem where
  /-- A reference to a rule that does not exist. -/
  | unknownRule (tag target : String)
  /-- A part that cannot stand under its tag. -/
  | badValue (tag : String) (value : Json)
  /-- An element, counted from zero, that cannot stand under its tag. -/
  | badElement (tag : String) (index : Nat) (value : Json)
  /-- A tag that needs an array. -/
  | notArray (tag : String)
  /-- A part that is no object, or has no tag. -/
  | invalidObject (value : Json)
  /-- A part with several tags. -/
  | severalTags (tags : List String)
  /-- A word that is no tag. -/
  | invalidTag (tag : String)
  /-- A tag that needs a text. -/
  | notText (tag : String)
  /-- A list without separator. -/
  | missingSeparator (tag : String)
  /-- A setting that is neither true nor false. -/
  | notFlag (setting : String) (value : Json)
  /-- A setting that is no number. -/
  | notNumber (setting : String) (value : Json)

namespace Problem

/-- The severity of a problem. -/
def severity : Problem → Severity
  | .unknownRule _ _ => .warning
  | _ => .error

/-- The words for a problem. -/
def message : Problem → String
  | .unknownRule tag target => tag ++ " has unknown rule: '" ++ target ++ "'"
  | .badValue tag value => tag ++ " has bad value: " ++ value.write
  | .badElement tag index value =>
    tag ++ " has bad element " ++ toString index ++ ": " ++ value.write
  | .notArray tag => tag ++ " expected to be an array"
  | .invalidObject value => "is invalid object: " ++ value.write
  | .severalTags tags => "has more than one tag: " ++ (Json.arr (tags.map .str)).write
  | .invalidTag tag => "has invalid tag: " ++ (Json.str tag).write
  | .notText tag => tag ++ " expected to be string"
  | .missingSeparator tag => tag ++ " is missing separator property"
  | .notFlag setting value => setting ++ " must be true or false: " ++ value.write
  | .notNumber setting value => setting ++ " must be a number: " ++ value.write

end Problem

/-- A problem and the rule that has it. -/
structure Diagnostic where
  rule : String
  problem : Problem

namespace Diagnostic

/-- The severity of a diagnostic. -/
def severity (diagnostic : Diagnostic) : Severity :=
  diagnostic.problem.severity

/-- The text of a diagnostic: the rule in quotes and the problem. -/
def text (diagnostic : Diagnostic) : String :=
  "'" ++ diagnostic.rule ++ "' " ++ diagnostic.problem.message

end Diagnostic

end GrammarView
