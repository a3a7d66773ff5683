import GrammarView.Decimal.Double

/-!
# Scalars

The numbers that lengths are made of. A diagram is laid out by the same definitions with doubles,
which are what is printed, and with rational numbers, in which nothing is rounded and statements
about positions can be exact.
-/

namespace GrammarView

/-- Numbers that lengths can be computed with. -/
class Scalar (α : Type) extends Add α, Sub α, Mul α, Div α, Neg α, OfScientific α where
  /-- A count as a number. -/
  ofCount : Nat → α
  /-- The number nearest to a double. -/
  ofDouble : Float → α
  /-- Whether one number is less than another. -/
  isLess : α → α → Bool
  /-- Whether two numbers are equal. -/
  isSame : α → α → Bool

/-- The exact value of a double; what is no finite number counts as zero. -/
def Double.toRat (value : Float) : Rat :=
  match Double.parts value with
  | .finite negative mantissa exponent =>
    let signed : Int := if negative then -Int.ofNat mantissa else Int.ofNat mantissa
    match exponent with
    | .ofNat power => mkRat (signed * Int.ofNat (Decimal.powerOfTwo power)) 1
    | .negSucc power => mkRat signed (Decimal.powerOfTwo (power + 1))
  | _ => mkRat 0 1

instance : Scalar Float where
  toAdd := instAddFloat
  toSub := instSubFloat
  toMul := instMulFloat
  toDiv := instDivFloat
  toNeg := instNegFloat
  toOfScientific := instOfScientificFloat
  ofCount := Float.ofNat
  ofDouble value := value
  isLess first second := decide (first < second)
  isSame first second := first == second

instance : Scalar Rat where
  toAdd := Rat.instAdd
  toSub := Rat.instSub
  toMul := Rat.instMul
  toDiv := Rat.instDiv
  toNeg := Rat.instNeg
  toOfScientific := Rat.instOfScientific
  ofCount count := mkRat (Int.ofNat count) 1
  ofDouble := Double.toRat
  isLess first second := decide (first < second)
  isSame first second := decide (first = second)

namespace Scalar

variable {α : Type} [Scalar α]

/-- Whether a number is zero. -/
def isZero (value : α) : Bool :=
  isSame value 0.0

/-- The greater of two numbers; the first one unless the second is greater. -/
def greater (first second : α) : α :=
  if isLess first second then second else first

/-- A number, or another one in its place when it is zero. -/
def orElse (value instead : α) : α :=
  if isZero value then instead else value

end Scalar

end GrammarView
