import GrammarView.Decimal.Double

/-!
# Shortest decimals

The decimal with the fewest digits that still reads back as a given double. For one digit, two
digits and so on, only the two neighbours of the double on the grid of that many digits can be
nearest to it, so the first grid on which one of them reads back decides; seventeen digits always
suffice.
-/

namespace GrammarView.Decimal

/-- A positive decimal `digits * 10 ^ exponent`. -/
structure Digits where
  digits : Nat
  exponent : Int
  deriving DecidableEq, Repr

/-- The numbers that round to a positive double, over one denominator: they lie between `low` and
`high` around `value`, and the two ends belong to them when `closed` holds. -/
structure Interval where
  low : Nat
  value : Nat
  high : Nat
  denominator : Nat
  closed : Bool
  deriving Repr

/-- The interval of a double. Its lower half is narrower when the mantissa is the least one of
its exponent, as the doubles below lie closer together. -/
def Interval.of (mantissa : Nat) (exponent : Int) : Interval :=
  let narrow := decide (mantissa = powerOfTwo 52 ∧ -1074 < exponent)
  let low := if narrow then 4 * mantissa - 1 else 4 * mantissa - 2
  let closed := mantissa % 2 == 0
  match exponent - 2 with
  | .ofNat power =>
    ⟨low * powerOfTwo power, 4 * mantissa * powerOfTwo power,
      (4 * mantissa + 2) * powerOfTwo power, 1, closed⟩
  | .negSucc power => ⟨low, 4 * mantissa, 4 * mantissa + 2, powerOfTwo (power + 1), closed⟩

/-- The interval with every number divided by a power of ten. -/
def Interval.scaled (interval : Interval) : Int → Interval
  | .ofNat power => { interval with denominator := interval.denominator * powerOfTen power }
  | .negSucc power =>
    let factor := powerOfTen (power + 1)
    { interval with
      low := interval.low * factor
      value := interval.value * factor
      high := interval.high * factor }

/-- Whether a whole number lies in the interval. -/
def Interval.holds (interval : Interval) (whole : Nat) : Bool :=
  let scaled := whole * interval.denominator
  if interval.closed then interval.low ≤ scaled && scaled ≤ interval.high
  else interval.low < scaled && scaled < interval.high

/-- The whole number in the interval that is nearest to its value, of two equally near ones the
even one. -/
def Interval.nearest? (interval : Interval) : Option Nat :=
  let below := interval.value / interval.denominator
  let above := below + 1
  let fromBelow := interval.value - below * interval.denominator
  let fromAbove := above * interval.denominator - interval.value
  match interval.holds below, interval.holds above with
  | true, true =>
    some (if fromBelow < fromAbove then below
      else if fromAbove < fromBelow then above
      else below + below % 2)
  | true, false => some below
  | false, true => some above
  | false, false => none

/-- The exponent of ten of the leading digit of a positive quotient. -/
def leadingExponent (numerator denominator : Nat) : Int :=
  if denominator ≤ numerator then
    Int.ofNat (Double.digitCount (numerator / denominator)) - 1
  else
    -Int.ofNat (Double.digitCount ((denominator + numerator - 1) / numerator - 1))

/-- The first of the grids from `count` digits on that holds a decimal which reads back. -/
def shortestFrom (interval : Interval) (leading : Int) (count : Nat) : Nat → Digits
  | 0 => ⟨interval.value / interval.denominator, 0⟩
  | grids + 1 =>
    let exponent := leading - Int.ofNat count + 1
    match (interval.scaled exponent).nearest? with
    | some digits => ⟨digits, exponent⟩
    | none => shortestFrom interval leading (count + 1) grids

/-- The shortest decimal that reads back as the double `mantissa * 2 ^ exponent`. -/
def shortest (mantissa : Nat) (exponent : Int) : Digits :=
  let interval := Interval.of mantissa exponent
  shortestFrom interval (leadingExponent interval.value interval.denominator) 1 17

end GrammarView.Decimal
