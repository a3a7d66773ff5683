import GrammarView.Json.Reader

/-!
# Grammar sources

A grammar as it is described: its rules and its variations, in the order of the description and
not yet checked. A description that holds no rules under that name is itself the mapping of
rules, as in the short snippets that are drawn beside a text.
-/

namespace GrammarView

/-- The rules of a grammar and the overlays that make its variations. -/
structure Source where
  rules : Entries Json
  variations : Entries (Entries Json)

namespace Source

/-- The parts of a description that have to be objects. -/
inductive Place where
  | grammar
  | rules
  | variations
  | variation (name : String)
  deriving DecidableEq, Repr

/-- The name of a part in a complaint. -/
def Place.describe : Place → String
  | .grammar => "grammar"
  | .rules => "'rules'"
  | .variations => "'variations'"
  | .variation name => "variation '" ++ name ++ "'"

/-- The reasons for which a text is not a grammar source. -/
inductive Fault where
  /-- A part is no object; it has the type of the given name. -/
  | notObject (place : Place) (typeName : String)
  /-- The text is not JSON. -/
  | malformed (line column : Nat) (cause : Json.Cause)
  /-- The text is not one call around its description. -/
  | notCall
  deriving DecidableEq, Repr

/-- The words for a reason. -/
def Fault.message : Fault → String
  | .notObject place typeName => place.describe ++ " must be an object, got " ++ typeName
  | .malformed line column cause =>
    "invalid grammar JSON at line " ++ toString line ++ " column " ++ toString column ++ ": "
      ++ cause.message
  | .notCall => "expected a JSONP call of the form 'callback(\x7b...\x7d);'"

/-- The members of a part that has to be an object. -/
def membersOf (place : Place) : Json → Except Fault (Entries Json)
  | .obj members => .ok members
  | value => .error (.notObject place value.typeName)

/-- The overlays of a description, each of which has to be an object. -/
def overlaysOf : Entries Json → Except Fault (Entries (Entries Json))
  | [] => .ok []
  | (name, value) :: rest => do
    let overlay ← membersOf (.variation name) value
    let overlays ← overlaysOf rest
    return (name, overlay) :: overlays

/-- The source that a value describes. Variations that are absent or hold nothing are none. -/
def ofJson (value : Json) : Except Fault Source := do
  let members ← membersOf .grammar value
  match members.get? "rules" with
  | none => return ⟨members, []⟩
  | some rules =>
    let rules ← membersOf .rules rules
    let variations := (members.get? "variations").getD .null
    if variations.isEmpty then return ⟨rules, []⟩
    else
      let variations ← membersOf .variations variations
      let overlays ← overlaysOf variations
      return ⟨rules, overlays⟩

/-- Reads a source from a JSON text. -/
def readJson (characters : List Char) : Except Fault Source :=
  match Json.read characters with
  | .ok value => ofJson value
  | .error fault =>
    let (line, column) := Json.position characters fault.offset
    .error (.malformed line column fault.cause)

end Source

end GrammarView
