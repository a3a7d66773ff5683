/-!
# Faults of a JSON text

What can be wrong with a text that should be JSON, and where. A place in a text is counted in
characters from zero, and shown as a line and a column counted from one.
-/

namespace GrammarView.Json

/-- What is wrong with a text that should be JSON. -/
inductive Cause where
  | expectingValue
  | expectingName
  | expectingColon
  | expectingComma
  | unterminatedText
  | controlCharacter
  | invalidEscape
  | invalidUnicodeEscape
  | extraData
  | byteOrderMark
  deriving DecidableEq, Repr

/-- The words for a cause. -/
def Cause.message : Cause → String
  | .expectingValue => "Expecting value"
  | .expectingName => "Expecting property name enclosed in double quotes"
  | .expectingColon => "Expecting ':' delimiter"
  | .expectingComma => "Expecting ',' delimiter"
  | .unterminatedText => "Unterminated string starting at"
  | .controlCharacter => "Invalid control character at"
  | .invalidEscape => "Invalid \\escape"
  | .invalidUnicodeEscape => "Invalid \\uXXXX escape"
  | .extraData => "Extra data"
  | .byteOrderMark => "Unexpected UTF-8 BOM (decode using utf-8-sig)"

/-- A cause and the offset of the character at which it shows. -/
structure Fault where
  offset : Nat
  cause : Cause
  deriving DecidableEq, Repr

/-- The line and the column of an offset, both counted from one. -/
def position (characters : List Char) (offset : Nat) : Nat × Nat :=
  let before := characters.take offset
  (before.count '\n' + 1, (before.reverse.takeWhile (· ≠ '\n')).length + 1)

end GrammarView.Json
