import GrammarView.Text.Digit
import GrammarView.Text.Printable

/-!
# Quoted texts

A text between quotes in which every character can be seen: backslashes, line ends and characters
that do not print are escaped. The quotes are single ones unless the text holds a single quote
and no double one.
-/

namespace GrammarView.Quoted

/-- A character as it stands between the given quotes. -/
def escape (quote character : Char) : List Char :=
  let code := character.toNat
  if character = quote ∨ character = '\\' then ['\\', character]
  else if character = '\n' then ['\\', 'n']
  else if character = '\r' then ['\\', 'r']
  else if character = '\t' then ['\\', 't']
  else if isPrintable character then [character]
  else if code < 0x100 then '\\' :: 'x' :: paddedDigits 16 2 code
  else if code < 0x10000 then '\\' :: 'u' :: paddedDigits 16 4 code
  else '\\' :: 'U' :: paddedDigits 16 8 code

/-- The quoted form of a text. -/
def quoted (content : String) : String :=
  let characters := content.toList
  let quote := if characters.contains '\'' && !characters.contains '"' then '"' else '\''
  String.ofList (quote :: characters.flatMap (escape quote) ++ [quote])

end GrammarView.Quoted
