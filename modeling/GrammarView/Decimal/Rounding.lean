/-!
# Rounding a quotient

The nearest natural number to a quotient. Everything that is rounded here, doubles and decimals
alike, is rounded by this one function, in which a quotient halfway between two numbers goes to
the even one.
-/

namespace GrammarView.Decimal

/-- A power of two. -/
def powerOfTwo (exponent : Nat) : Nat :=
  Nat.pow 2 exponent

/-- A power of ten. -/
def powerOfTen (exponent : Nat) : Nat :=
  Nat.pow 10 exponent

/-- The natural number nearest to a quotient; of two equally near ones, the even one. -/
def roundHalfEven (numerator denominator : Nat) : Nat :=
  let quotient := numerator / denominator
  let remainder := numerator % denominator
  if 2 * remainder < denominator then quotient
  else if denominator < 2 * remainder then quotient + 1
  else quotient + quotient % 2

/-- A quotient without a remainder is its own nearest number. -/
theorem roundHalfEven_mul (quotient denominator : Nat) (positive : 0 < denominator) :
    roundHalfEven (quotient * denominator) denominator = quotient := by
  simp [roundHalfEven, Nat.mul_div_cancel _ positive, positive]

/-- The nearest natural number to a value times a power of two. -/
def roundScaled (numerator denominator : Nat) : Int → Nat
  | .ofNat exponent => roundHalfEven (numerator * powerOfTwo exponent) denominator
  | .negSucc exponent => roundHalfEven numerator (denominator * powerOfTwo (exponent + 1))

end GrammarView.Decimal
