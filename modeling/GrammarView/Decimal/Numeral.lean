import GrammarView.Decimal.Double
import GrammarView.Text.Blank
import GrammarView.Text.Digit

/-!
# Reading numbers that a person typed

Reads a double from a text in which blanks may stand at the ends, underscores between digits, and
digits of any script. A point needs a digit on one of its sides, and an exponent needs digits;
the words for infinities and for what is not a number are read in any case of letters.
-/

namespace GrammarView.Decimal

/-- The value of a run of digits of ASCII. -/
def valueOfDigits (digits : List Char) : Nat :=
  digits.foldl (fun value digit => value * 10 + (digit.toNat - 48)) 0

/-- The text with every digit of another script replaced by the digit of ASCII. -/
def plainDigits (characters : List Char) : List Char :=
  characters.map fun character =>
    match digitValue? character with
    | some value => Char.ofNat (48 + value)
    | none => character

/-- The text without its underscores, and none unless each of them stands between two digits. -/
def dropUnderscores? (afterDigit : Bool) : List Char → Option (List Char)
  | [] => some []
  | '_' :: rest =>
    match rest with
    | next :: _ => if afterDigit && next.isDigit then dropUnderscores? false rest else none
    | [] => none
  | character :: rest => (character :: ·) <$> dropUnderscores? character.isDigit rest

/-- The exponent that a text spells, zero when it is empty. -/
def exponent? : List Char → Option Int
  | [] => some 0
  | mark :: rest =>
    if mark = 'e' ∨ mark = 'E' then
      let (negative, digits) :=
        match rest with
        | '-' :: digits => (true, digits)
        | '+' :: digits => (false, digits)
        | digits => (false, digits)
      if digits ≠ [] ∧ digits.all Char.isDigit then
        let value := Int.ofNat (valueOfDigits digits)
        some (if negative then -value else value)
      else none
    else none

/-- The double that a numeral without sign spells. -/
def magnitude? (negative : Bool) (characters : List Char) : Option Float :=
  let whole := characters.takeWhile Char.isDigit
  let rest := characters.dropWhile Char.isDigit
  let (fraction, rest) :=
    match rest with
    | '.' :: rest => (rest.takeWhile Char.isDigit, rest.dropWhile Char.isDigit)
    | rest => ([], rest)
  if whole.isEmpty && fraction.isEmpty then none
  else
    (exponent? rest).map fun exponent =>
      Double.ofDecimal negative (valueOfDigits (whole ++ fraction))
        (exponent - Int.ofNat fraction.length)

/-- The double that one of the words for special values stands for. -/
def special? (negative : Bool) (characters : List Char) : Option Float :=
  let word := String.ofList (characters.map Char.toLower)
  if word = "inf" ∨ word = "infinity" then some (Double.ofBits negative Double.infinityBits)
  else if word = "nan" then some (Double.ofBits negative Double.undefinedBits)
  else none

/-- The text without the blanks that may surround a number. -/
def trimNumeral (characters : List Char) : List Char :=
  ((characters.dropWhile isPlainBlank).reverse.dropWhile isPlainBlank).reverse

/-- The double that a text spells, if it spells one. -/
def read? (characters : List Char) : Option Float :=
  let characters := plainDigits (trimNumeral characters)
  let (negative, unsigned) :=
    match characters with
    | '-' :: rest => (true, rest)
    | '+' :: rest => (false, rest)
    | rest => (false, rest)
  match special? negative unsigned with
  | some value => some value
  | none => (dropUnderscores? false unsigned).bind (magnitude? negative)

end GrammarView.Decimal
