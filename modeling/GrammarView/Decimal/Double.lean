import GrammarView.Decimal.Rounding

/-!
# Doubles as exact numbers

A finite double is a sign and a natural number times a power of two. `parts` takes a double
apart into these, and `nearest` finds the double nearest to a quotient of natural numbers; both
are exact, so what is printed and what is read never passes through rounded arithmetic.
-/

namespace GrammarView.Double

open Decimal

/-- What a double stands for. -/
inductive Parts where
  /-- The number `mantissa * 2 ^ exponent`, below zero when `negative` holds. -/
  | finite (negative : Bool) (mantissa : Nat) (exponent : Int)
  /-- An infinity. -/
  | infinite (negative : Bool)
  /-- Not a number. -/
  | undefined
  deriving DecidableEq, Repr

/-- Takes a double apart: one bit of sign, eleven of exponent and fifty-two of fraction. -/
def parts (value : Float) : Parts :=
  let bits := value.toBits.toNat
  let negative := decide (powerOfTwo 63 ≤ bits)
  let biased := bits / powerOfTwo 52 % 2048
  let fraction := bits % powerOfTwo 52
  if biased = 0 then .finite negative fraction (-1074)
  else if biased = 2047 then if fraction = 0 then .infinite negative else .undefined
  else .finite negative (powerOfTwo 52 + fraction) (Int.ofNat biased - 1075)

/-- The bits of the infinity above zero, one more than those of the largest double. -/
def infinityBits : Nat :=
  2047 * powerOfTwo 52

/-- The bits of the double nearest to a positive quotient, `infinityBits` or more when the
quotient is too large. The exponent is chosen so that the mantissa has fifty-three bits, or fewer
at the smallest exponent; a mantissa rounded up to one bit more carries into the exponent. -/
def nearestBits (numerator denominator : Nat) : Nat :=
  let estimate : Int := Int.ofNat numerator.log2 - Int.ofNat denominator.log2
  let reached :=
    match estimate with
    | .ofNat exponent => decide (denominator * powerOfTwo exponent ≤ numerator)
    | .negSucc exponent => decide (denominator ≤ numerator * powerOfTwo (exponent + 1))
  let exponent := max (if reached then estimate - 52 else estimate - 53) (-1074)
  (exponent + 1074).toNat * powerOfTwo 52 + roundScaled numerator denominator (-exponent)

/-- The double with given bits below the sign. -/
def ofBits (negative : Bool) (bits : Nat) : Float :=
  Float.ofBits (UInt64.ofNat (bits + if negative then powerOfTwo 63 else 0))

/-- The bits that stand for what is no number. -/
def undefinedBits : Nat :=
  infinityBits + powerOfTwo 51

/-- The double nearest to a quotient, of two equally near ones the one with even mantissa, and
an infinity when the quotient lies beyond the largest double. -/
def nearest (negative : Bool) (numerator denominator : Nat) : Float :=
  if numerator = 0 then ofBits negative 0
  else ofBits negative (min (nearestBits numerator denominator) infinityBits)

/-- The double nearest to an integer, and none when that lies beyond the largest double. -/
def ofInt? (value : Int) : Option Float :=
  if value = 0 then some (ofBits false 0)
  else
    let bits := nearestBits value.natAbs 1
    if bits < infinityBits then some (ofBits (decide (value < 0)) bits) else none

/-- How many digits the decimal numeral of a natural number has. -/
def digitCount (value : Nat) : Nat :=
  (Nat.toDigits 10 value).length

/-- The double nearest to `digits * 10 ^ exponent`. Exponents far outside the range of doubles
are decided by the number of digits alone. -/
def ofDecimal (negative : Bool) (digits : Nat) (exponent : Int) : Float :=
  if digits = 0 then ofBits negative 0
  else
    let order := Int.ofNat (digitCount digits) + exponent
    if 310 < order then ofBits negative infinityBits
    else if order < -330 then ofBits negative 0
    else
      match exponent with
      | .ofNat power => nearest negative (digits * powerOfTen power) 1
      | .negSucc power => nearest negative digits (powerOfTen (power + 1))

end GrammarView.Double
