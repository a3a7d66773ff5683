import GrammarView.Decimal.Rounding
import Mathlib.Algebra.Order.Field.Rat
import Mathlib.Tactic

/-!
# Rounding to the nearest

What it means to round to the nearest integer, of two equally near ones to the even one, and that
quotients are rounded so, by themselves and when a power of two scales them.
-/

namespace GrammarView.Decimal

/-- Whether an integer is the nearest to a number; of two that are equally near, the even one. -/
def RoundsTo (number : Rat) (nearest : Int) : Prop :=
  |number - nearest| ≤ 1 / 2 ∧ (|number - nearest| = 1 / 2 → Even nearest)

namespace RoundsTo

variable {number : Rat} {nearest other : Int}

/-- A number below zero is rounded like the one above. -/
theorem neg (rounds : RoundsTo number nearest) : RoundsTo (-number) (-nearest) := by
  have distance : |-number - (-nearest : Int)| = |number - nearest| := by
    push_cast
    rw [← abs_neg]
    congr 1
    ring
  rw [RoundsTo, distance]
  exact ⟨rounds.1, fun tie => (rounds.2 tie).neg⟩

/-- A number is not rounded to two integers, one below the other. -/
theorem not_below (rounds : RoundsTo number nearest) (too : RoundsTo number other) :
    ¬ nearest < other := by
  intro below
  have step : (nearest : Rat) + 1 ≤ other := by exact_mod_cast below
  have lower := (abs_le.mp rounds.1).2
  have upper := (abs_le.mp too.1).1
  -- Both are half the way off, so both are even.
  have fromBelow : number - nearest = 1 / 2 := by linarith
  have fromAbove : number - other = -(1 / 2) := by linarith
  have even : Even nearest := rounds.2 (by rw [fromBelow]; norm_num)
  have evenToo : Even other := too.2 (by rw [fromAbove]; norm_num)
  have next : other = nearest + 1 := by
    have between : (other : Rat) = nearest + 1 := by linarith
    exact_mod_cast between
  rw [next] at evenToo
  exact Int.even_add_one.mp evenToo even

/-- There is one integer to which a number is rounded. -/
theorem unique (rounds : RoundsTo number nearest) (too : RoundsTo number other) :
    nearest = other :=
  le_antisymm (Int.not_lt.mp (too.not_below rounds)) (Int.not_lt.mp (rounds.not_below too))

end RoundsTo

/-- A quotient is rounded to an integer when the rest is no more than half the denominator. -/
theorem roundsTo_div {numerator denominator nearest rest : Int} (positive : 0 < denominator)
    (division : numerator = nearest * denominator + rest) (small : 2 * |rest| ≤ denominator)
    (even : 2 * |rest| = denominator → Even nearest) :
    RoundsTo (numerator / denominator) nearest := by
  have scale : (0 : Rat) < denominator := by exact_mod_cast positive
  have distance : |(numerator : Rat) / denominator - nearest| = (|rest| : Int) / denominator := by
    rw [division]
    push_cast
    rw [← abs_of_pos scale, ← abs_div, abs_of_pos scale, add_div, mul_div_cancel_right₀ _ scale.ne',
      add_sub_cancel_left]
  rw [RoundsTo, distance]
  constructor
  · rw [div_le_div_iff₀ scale two_pos]
    exact_mod_cast (by omega : |rest| * 2 ≤ 1 * denominator)
  · intro tie
    rw [div_eq_div_iff scale.ne' two_ne_zero] at tie
    have same : |rest| * 2 = 1 * denominator := by exact_mod_cast tie
    exact even (by omega)

/-- The quotient of natural numbers is rounded. -/
theorem roundsTo_roundHalfEven (numerator : Nat) {denominator : Nat} (positive : 0 < denominator) :
    RoundsTo (numerator / denominator) (roundHalfEven numerator denominator) := by
  have division := Nat.div_add_mod numerator denominator
  have remainder := Nat.mod_lt numerator positive
  rw [roundHalfEven]
  generalize numerator / denominator = whole at division ⊢
  generalize numerator % denominator = rest at division remainder ⊢
  have scale : (0 : Int) < denominator := by exact_mod_cast positive
  have down (small : 2 * rest ≤ denominator) (even : 2 * rest = denominator → Even whole) :
      RoundsTo (numerator / denominator) (whole : Nat) := by
    have parts : (numerator : Int) = whole * denominator + rest := by
      rw [← division]
      push_cast
      ring
    have distance : |(rest : Int)| = rest := abs_of_nonneg (Int.natCast_nonneg rest)
    refine roundsTo_div scale parts ?_ fun tie => ?_
    · omega
    · exact_mod_cast even (by omega)
  have up (large : denominator ≤ 2 * rest) (even : 2 * rest = denominator → Even (whole + 1)) :
      RoundsTo (numerator / denominator) (whole + 1 : Nat) := by
    have parts : (numerator : Int) = (whole + 1 : Nat) * denominator + (rest - denominator) := by
      rw [← division]
      push_cast
      ring
    have distance : |(rest : Int) - denominator| = denominator - rest := by
      rw [abs_of_nonpos (by omega), neg_sub]
    refine roundsTo_div scale parts ?_ fun tie => ?_
    · omega
    · exact_mod_cast even (by omega)
  split_ifs with below above
  · exact down (by omega) fun tie => absurd tie (by omega)
  · exact up (by omega) fun tie => absurd tie (by omega)
  · rcases Nat.even_or_odd whole with even | odd
    · rw [Nat.even_iff.mp even]
      exact down (by omega) fun _ => even
    · rw [Nat.odd_iff.mp odd]
      exact up (by omega) fun _ => odd.add_one

/-- A quotient times a power of two is rounded. -/
theorem roundsTo_roundScaled (numerator : Nat) {denominator : Nat} (positive : 0 < denominator)
    (exponent : Int) :
    RoundsTo (numerator / denominator * 2 ^ exponent)
      (roundScaled numerator denominator exponent) := by
  cases exponent with
  | ofNat exponent =>
    have same : (numerator : Rat) / denominator * 2 ^ Int.ofNat exponent =
        (numerator * 2 ^ exponent : Nat) / denominator := by
      push_cast
      rw [Int.ofNat_eq_natCast, zpow_natCast]
      ring
    rw [same]
    exact roundsTo_roundHalfEven _ positive
  | negSucc exponent =>
    have same : (numerator : Rat) / denominator * 2 ^ Int.negSucc exponent =
        numerator / (denominator * 2 ^ (exponent + 1) : Nat) := by
      push_cast
      rw [zpow_negSucc]
      ring
    rw [same]
    exact roundsTo_roundHalfEven _ (Nat.mul_pos positive (Nat.two_pow_pos _))

end GrammarView.Decimal
