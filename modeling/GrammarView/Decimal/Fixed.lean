import GrammarView.Decimal.Double
import GrammarView.Text.Digit

/-!
# Lengths in four decimals

The form in which every length of a drawing is written: at most four decimals, no zeros and no
point left at the end, and no sign on zero. The value is rounded from the exact number that a
double stands for.
-/

namespace GrammarView.Decimal

/-- How many units of a ten thousandth are nearest to `mantissa * 2 ^ exponent`. -/
def tenThousandths (mantissa : Nat) (exponent : Int) : Nat :=
  roundScaled (mantissa * 10000) 1 exponent

/-- The four digits after the point of a number of ten thousandths. -/
def fractionDigits (units : Nat) : List Char :=
  paddedDigits 10 4 (units % 10000)

/-- A sign in front of a text, if need be. -/
def signed (negative : Bool) (text : List Char) : List Char :=
  if negative then '-' :: text else text

/-- A double with exactly four digits after the point. A double that is rounded to zero keeps its
sign. -/
def fourDecimals (value : Float) : List Char :=
  match Double.parts value with
  | .undefined => "nan".toList
  | .infinite negative => signed negative "inf".toList
  | .finite negative mantissa exponent =>
    let units := tenThousandths mantissa exponent
    signed negative (Nat.toDigits 10 (units / 10000) ++ '.' :: fractionDigits units)

/-- A length as it is written in a drawing. -/
def number (value : Float) : String :=
  let text := dropTrailing '.' (dropTrailing '0' (fourDecimals value))
  if text = ['-', '0'] then "0" else String.ofList text

/-- An integer as it is written in a drawing: in full. Nothing limits its digits here; where no more
than 4300 of them are allowed, as for the integers of a grammar, a longer integer is not written. -/
def integer (value : Int) : String :=
  toString value

end GrammarView.Decimal
