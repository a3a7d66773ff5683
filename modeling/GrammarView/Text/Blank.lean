/-!
# Blank characters

Which characters count as blank, and how a text loses the blanks at its ends. Recognising the
form of a grammar and splitting a printed production both rest on this one class.
-/

namespace GrammarView

/-- A character is blank when it is one of the white space characters of Unicode or one of the
four information separators of ASCII. -/
def isBlank (character : Char) : Bool :=
  let code := character.toNat
  (9 ≤ code && code ≤ 13) || (28 ≤ code && code ≤ 32) || code == 0x85 || code == 0xA0
    || code == 0x1680 || (0x2000 ≤ code && code ≤ 0x200A) || code == 0x2028 || code == 0x2029
    || code == 0x202F || code == 0x205F || code == 0x3000

/-- The blanks that may surround a number: all of them except the information separators. -/
def isPlainBlank (character : Char) : Bool :=
  isBlank character && !(28 ≤ character.toNat && character.toNat ≤ 31)

/-- The text without the blanks at its beginning. -/
def dropBlanks (characters : List Char) : List Char :=
  characters.dropWhile isBlank

/-- The text without the blanks at its end. -/
def dropTrailingBlanks (characters : List Char) : List Char :=
  (characters.reverse.dropWhile isBlank).reverse

/-- The text without the blanks at either end. -/
def trimBlanks (characters : List Char) : List Char :=
  dropTrailingBlanks (dropBlanks characters)

/-- Dropping blanks never makes a text longer. -/
theorem length_dropBlanks_le (characters : List Char) :
    (dropBlanks characters).length ≤ characters.length :=
  (List.dropWhile_sublist isBlank).length_le

end GrammarView
