import GrammarView.Decimal.Fixed
import GrammarView.Entries

/-!
# Markup

Trees of elements and how they are written. Texts and attribute values are kept as they are meant
and escaped only when they are written, so no text can be taken for markup. What a listing puts
between the texts is written as it stands.
-/

namespace GrammarView

/-- A tree of elements. -/
inductive Markup where
  /-- A text, escaped when it is written. -/
  | text (content : String)
  /-- Characters that are written as they are, because none of them has to be escaped or because
  they have been written already. -/
  | written (content : String)
  /-- An element with its attributes in order and its children. -/
  | element (name : String) (attributes : List (String × String)) (children : List Markup)
  deriving Repr

namespace Markup

/-- A character of a text as it is written. -/
def escapeCharacter (character : Char) : List Char :=
  if character = '&' then "&amp;".toList
  else if character = '<' then "&lt;".toList
  else if character = '>' then "&gt;".toList
  else [character]

/-- A character of an attribute value as it is written between double quotes. -/
def escapeQuoted (character : Char) : List Char :=
  if character = '"' then "&quot;".toList else escapeCharacter character

/-- A text as it is written. -/
def escape (content : String) : List Char :=
  content.toList.flatMap escapeCharacter

/-- An attribute as it is written after the name of its element. -/
def writeAttribute (named : String × String) : List Char :=
  ' ' :: named.1.toList ++ '=' :: '"' :: named.2.toList.flatMap escapeQuoted ++ ['"']

/-- An element as it is written around its written content. An element without content closes
itself. -/
def enclose (name : String) (attributes : List (String × String)) (content : List Char) :
    List Char :=
  let opening := '<' :: name.toList ++ attributes.flatMap writeAttribute
  if content.isEmpty then opening ++ ['/', '>']
  else opening ++ '>' :: content ++ '<' :: '/' :: name.toList ++ ['>']

mutual

/-- The characters of a written tree. -/
def writeTree : Markup → List Char
  | .text content => escape content
  | .written content => content.toList
  | .element name attributes children => enclose name attributes (writeTrees children)

/-- The characters of written trees, one after the other. -/
def writeTrees : List Markup → List Char
  | [] => []
  | tree :: rest => writeTree tree ++ writeTrees rest

end

/-- A written tree. -/
def write (tree : Markup) : String :=
  String.ofList (writeTree tree)

/-- Written trees, one after the other. -/
def writeAll (trees : List Markup) : String :=
  String.ofList (writeTrees trees)

end Markup

/-- The kinds of values that an attribute may be given. -/
inductive AttributeValue where
  | text (content : String)
  | flag (value : Bool)
  | length (value : Float)
  | count (value : Int)
  | nothing

/-- The text of an attribute's value. -/
def AttributeValue.spelling : AttributeValue → String
  | .text content => content
  | .flag value => if value then "true" else "false"
  | .length value => Decimal.number value
  | .count value => Decimal.integer value
  | .nothing => "None"

end GrammarView
