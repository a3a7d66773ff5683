import GrammarView.Decimal.Double
import Mathlib.Tactic.Ring

/-!
# Integers that fit a double

An integer is read as the double nearest to it. The largest double lies one unit of its last place
below the power of two that the exponents end at, so the integers that have a nearest double are
those on the near side of the middle between the two; the middle itself goes to the even side, which
is the power of two.
-/

namespace GrammarView

open Decimal

/-- The integers that are nearer to some double than to the power of two after the largest one. -/
def FitsDouble (value : Int) : Prop :=
  value.natAbs < 2 ^ 1024 - 2 ^ 970

instance (value : Int) : Decidable (FitsDouble value) :=
  inferInstanceAs (Decidable (value.natAbs < 2 ^ 1024 - 2 ^ 970))

/-- A quotient is rounded below an even bound when it lies below the middle before the bound. -/
theorem roundHalfEven_lt_iff {numerator denominator last : Nat} (positive : 0 < denominator)
    (odd : last % 2 = 1) :
    roundHalfEven numerator denominator < last + 1 ↔
      2 * numerator < (2 * last + 1) * denominator := by
  have division := Nat.div_add_mod numerator denominator
  have remainder := Nat.mod_lt numerator positive
  simp only [roundHalfEven]
  generalize numerator / denominator = quotient at division ⊢
  generalize numerator % denominator = rest at division remainder ⊢
  have middle : (2 * last + 1) * denominator = 2 * (denominator * last) + denominator := by ring
  rw [middle, ← division]
  have step {smaller greater : Nat} (below : smaller < greater) :
      denominator * smaller + denominator ≤ denominator * greater := by
    rw [← Nat.mul_succ]
    exact Nat.mul_le_mul_left denominator below
  -- Against the last number before the bound the products become linear.
  rcases Nat.lt_trichotomy quotient last with below | rfl | above
  · have products := step below
    split_ifs <;> omega
  · split_ifs <;> omega
  · have products := step above
    split_ifs <;> omega

/-- Rounding a quotient takes it to one of its two neighbours. -/
theorem roundHalfEven_between (numerator denominator : Nat) :
    numerator / denominator ≤ roundHalfEven numerator denominator ∧
      roundHalfEven numerator denominator ≤ numerator / denominator + 1 := by
  simp only [roundHalfEven]
  generalize numerator / denominator = quotient
  split_ifs <;> omega

/-- The leading digits of a number with at most fifty-three are the number, filled up with zeros. -/
theorem roundScaled_filled (value shift : Nat) :
    roundScaled value 1 (Int.ofNat shift) = value * 2 ^ shift := by
  have whole := roundHalfEven_mul (value * powerOfTwo shift) 1 Nat.one_pos
  rwa [Nat.mul_one] at whole

/-- The leading digits of a number with more are a rounded quotient. -/
theorem roundScaled_cut (value places : Nat) :
    roundScaled value 1 (-Int.ofNat (places + 1)) = roundHalfEven value (2 ^ (places + 1)) := by
  change roundHalfEven value (1 * powerOfTwo (places + 1)) = _
  rw [Nat.one_mul]
  rfl

/-- The leading digits of a number are fifty-three, or a one and fifty-three zeros. -/
theorem roundScaled_between {value : Nat} (positive : 0 < value) :
    2 ^ 52 ≤ roundScaled value 1 (52 - Int.ofNat value.log2) ∧
      roundScaled value 1 (52 - Int.ofNat value.log2) ≤ 2 ^ 53 := by
  have lower : 2 ^ value.log2 ≤ value := Nat.log2_self_le (Nat.ne_of_gt positive)
  have upper : value < 2 ^ (value.log2 + 1) := Nat.lt_log2_self
  generalize value.log2 = digits at lower upper ⊢
  rcases Nat.lt_or_ge 52 digits with many | few
  · obtain ⟨places, rfl⟩ := Nat.exists_eq_add_of_lt many
    have scale : (52 : Int) - Int.ofNat (52 + places + 1) = -Int.ofNat (places + 1) := by
      rw [Int.ofNat_eq_natCast, Int.ofNat_eq_natCast]
      omega
    have between := roundHalfEven_between value (2 ^ (places + 1))
    have atLeast : 2 ^ 52 ≤ value / 2 ^ (places + 1) := by
      rw [Nat.le_div_iff_mul_le (Nat.two_pow_pos _), ← Nat.pow_add]
      exact lower
    have atMost : value / 2 ^ (places + 1) < 2 ^ 53 := by
      rw [Nat.div_lt_iff_lt_mul (Nat.two_pow_pos _), ← Nat.pow_add]
      have digits : 53 + (places + 1) = 52 + places + 1 + 1 := by omega
      rwa [digits]
    rw [scale, roundScaled_cut]
    exact ⟨Nat.le_trans atLeast between.1, Nat.le_trans between.2 atMost⟩
  · obtain ⟨shift, total⟩ := Nat.exists_eq_add_of_le few
    have scale : (52 : Int) - Int.ofNat digits = Int.ofNat shift := by
      rw [Int.ofNat_eq_natCast, Int.ofNat_eq_natCast]
      omega
    rw [scale, roundScaled_filled]
    constructor
    · calc 2 ^ 52
        _ = 2 ^ digits * 2 ^ shift := by rw [total, Nat.pow_add]
        _ ≤ value * 2 ^ shift := Nat.mul_le_mul_right _ lower
    · calc value * 2 ^ shift
        _ ≤ 2 ^ (digits + 1) * 2 ^ shift := Nat.mul_le_mul_right _ (Nat.le_of_lt upper)
        _ = 2 ^ 53 := by rw [← Nat.pow_add, Nat.add_right_comm, ← total]

/-- The digits of a number with one more digit than a double has exponents are not rounded up
exactly when the number lies below the middle before the power of two. -/
theorem roundScaled_lt_iff {value places : Nat} :
    roundScaled value 1 (-Int.ofNat (places + 1)) < 2 ^ 53 ↔
      value < 2 ^ (places + 54) - 2 ^ places := by
  have odd : (2 ^ 53 - 1) % 2 = 1 := by norm_num
  have powers : (2 * (2 ^ 53 - 1) + 1) * 2 ^ (places + 1) =
      2 * (2 ^ (places + 54) - 2 ^ places) := by
    rw [pow_add 2 places 54, pow_succ 2 places]
    generalize (2 : Nat) ^ places = power
    omega
  calc roundScaled value 1 (-Int.ofNat (places + 1)) < 2 ^ 53
    _ ↔ roundHalfEven value (2 ^ (places + 1)) < 2 ^ 53 - 1 + 1 := by
      rw [roundScaled_cut]
      exact Iff.rfl
    _ ↔ 2 * value < (2 * (2 ^ 53 - 1) + 1) * 2 ^ (places + 1) :=
      roundHalfEven_lt_iff (Nat.two_pow_pos _) odd
    _ ↔ 2 * value < 2 * (2 ^ (places + 54) - 2 ^ places) := by rw [powers]
    _ ↔ value < 2 ^ (places + 54) - 2 ^ places := Nat.mul_lt_mul_left Nat.two_pos

/-- The bits of a positive integer: its exponent and its leading digits. -/
theorem nearestBits_one {value : Nat} (positive : 0 < value) :
    Double.nearestBits value 1 =
      (value.log2 + 1022) * 2 ^ 52 + roundScaled value 1 (52 - Int.ofNat value.log2) := by
  have estimate : Int.ofNat value.log2 - Int.ofNat (Nat.log2 1) = Int.ofNat value.log2 := by
    have one : Nat.log2 1 = 0 := by decide
    rw [one]
    exact Int.sub_zero _
  have reached : 1 * powerOfTwo value.log2 ≤ value := by
    rw [Nat.one_mul]
    exact Nat.log2_self_le (Nat.ne_of_gt positive)
  have exponent : max (Int.ofNat value.log2 - 52) (-1074) = Int.ofNat value.log2 - 52 := by
    rw [Int.ofNat_eq_natCast]
    omega
  have places : (Int.ofNat value.log2 - 52 + 1074).toNat = value.log2 + 1022 := by
    rw [Int.ofNat_eq_natCast]
    omega
  have scale : -(Int.ofNat value.log2 - 52) = 52 - Int.ofNat value.log2 := by omega
  simp only [Double.nearestBits, estimate, reached, decide_true, if_true, exponent, places, scale]
  rfl

/-- The bits of a positive integer stay below those of the infinity exactly when it lies below the
middle before the power of two that the exponents end at, `places` being the exponent of half a unit
in the last place there. -/
theorem nearestBits_lt_iff {value places : Nat} (positive : 0 < value) (exponents : places = 970) :
    Double.nearestBits value 1 < Double.infinityBits ↔ value < 2 ^ (places + 54) - 2 ^ places := by
  have lower : 2 ^ value.log2 ≤ value := Nat.log2_self_le (Nat.ne_of_gt positive)
  have upper : value < 2 ^ (value.log2 + 1) := Nat.lt_log2_self
  have between := roundScaled_between positive
  have infinity : Double.infinityBits = 2047 * 2 ^ 52 := rfl
  have powers : 2 ^ (places + 54) = 2 ^ places * 2 ^ 54 := pow_add 2 places 54
  rw [nearestBits_one positive, infinity]
  rcases Nat.lt_trichotomy value.log2 (places + 53) with small | middle | large
  · have half : 2 ^ (places + 53) = 2 ^ places * 2 ^ 53 := pow_add 2 places 53
    have below : value < 2 ^ (places + 53) :=
      Nat.lt_of_lt_of_le upper (Nat.pow_le_pow_right Nat.two_pos small)
    have fits : value < 2 ^ (places + 54) - 2 ^ places := by omega
    simp only [fits, iff_true]
    generalize roundScaled value 1 (52 - Int.ofNat value.log2) = leading at between ⊢
    omega
  · have scale : (52 : Int) - Int.ofNat (places + 53) = -Int.ofNat (places + 1) := by
      rw [Int.ofNat_eq_natCast, Int.ofNat_eq_natCast]
      omega
    rw [middle, scale, ← roundScaled_lt_iff]
    generalize roundScaled value 1 (-Int.ofNat (places + 1)) = leading
    omega
  · have above : 2 ^ (places + 54) ≤ value :=
      Nat.le_trans (Nat.pow_le_pow_right Nat.two_pos large) lower
    have tooLarge : ¬ value < 2 ^ (places + 54) - 2 ^ places := by omega
    simp only [tooLarge, iff_false]
    generalize roundScaled value 1 (52 - Int.ofNat value.log2) = leading at between ⊢
    omega

/-- An integer has a nearest double exactly when it fits. -/
theorem ofInt?_isSome_iff (value : Int) : (Double.ofInt? value).isSome ↔ FitsDouble value := by
  rw [Double.ofInt?]
  by_cases zero : value = 0
  · have fits : FitsDouble 0 := by decide +kernel
    simp [zero, fits]
  · have positive : 0 < value.natAbs := Int.natAbs_pos.mpr zero
    have below := nearestBits_lt_iff positive rfl
    rw [if_neg zero, FitsDouble, ← below]
    by_cases inside : Double.nearestBits value.natAbs 1 < Double.infinityBits
    · simp [inside]
    · simp [inside]

end GrammarView
