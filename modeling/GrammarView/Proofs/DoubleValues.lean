import GrammarView.Diagram.Scalar
import GrammarView.Proofs.Doubles
import GrammarView.Proofs.Rounding
import Mathlib

/-!
# The number that a double is

The exact number that a double stands for in the model of floating-point numbers, in which a double
is unpacked from its bits. The parts into which a double is taken apart here make up this number. So
what is stated about the number of a double does not rest on how it is taken apart. Integers are
read as doubles whose number is the integer, rounded to the first fifty-three of its binary digits.
-/

namespace GrammarView

namespace Double

open Float.Model Float.Model.UnpackedFloat
open Decimal (RoundsTo roundsTo_roundScaled)

/-- The number of an unpacked double; what is infinite or no number has none. -/
def numberOf : UnpackedFloat → Option Rat
  | .finite sign mantissa exponent _ => some (sign.apply mantissa * 2 ^ exponent)
  | .zero _ => some 0
  | .infinity _ | .notANumber => none

/-- The number that a double is. -/
def value? (value : Float) : Option Rat :=
  numberOf value.toModel.unpack

/-- A number with its sign. -/
def signed (negative : Bool) (mantissa : Nat) : Rat :=
  if negative then -mantissa else mantissa

/-- The number that parts make up. -/
def Parts.value? : Parts → Option Rat
  | .finite negative mantissa exponent => some (signed negative mantissa * 2 ^ exponent)
  | .infinite _ | .undefined => none

section Unpacking

variable (bits : BitVec Format.binary64.numBits)

/-- The exponent among the bits of a double. -/
theorem toNat_unpackExponent : (unpackExponent bits).toNat = bits.toNat / 2 ^ 52 % 2048 := by
  simp [unpackExponent, Nat.shiftRight_eq_div_pow]

/-- The fraction among the bits of a double. -/
theorem toNat_unpackMantissa : (unpackMantissa bits).toNat = bits.toNat % 2 ^ 52 := by
  simp [unpackMantissa]

/-- The sign among the bits of a double. -/
theorem ofBitVec_unpackSign :
    Sign.ofBitVec (unpackSign bits) = if 2 ^ 63 ≤ bits.toNat then .negative else .positive := by
  have sign : (unpackSign bits).toNat = bits.toNat / 2 ^ 63 % 2 := by
    simp [unpackSign, Nat.shiftRight_eq_div_pow]
  have bound : bits.toNat < 2 ^ 64 := bits.isLt
  rw [Sign.ofBitVec]
  by_cases negative : 2 ^ 63 ≤ bits.toNat
  · have nonzero : unpackSign bits ≠ 0#1 := by
      intro zero
      rw [zero] at sign
      simp only [BitVec.toNat_ofNat] at sign
      omega
    rw [if_neg nonzero, if_pos negative]
  · have zero : unpackSign bits = 0#1 := by
      refine BitVec.eq_of_toNat_eq ?_
      rw [sign, BitVec.toNat_ofNat]
      omega
    rw [if_pos zero, if_neg negative]

/-- The exponent above all others is that of what is no finite number. -/
theorem unpackExponent_eq_top :
    unpackExponent bits = -BitVec.ofNat Format.binary64.exponentBits 1 ↔
      bits.toNat / 2 ^ 52 % 2048 = 2047 := by
  rw [← toNat_unpackExponent, ← BitVec.toNat_inj]
  exact Iff.rfl

/-- The exponent below all others is that of zero and of the smallest numbers. -/
theorem unpackExponent_eq_zero :
    unpackExponent bits = BitVec.ofNat Format.binary64.exponentBits 0 ↔
      bits.toNat / 2 ^ 52 % 2048 = 0 := by
  rw [← toNat_unpackExponent, ← BitVec.toNat_inj]
  exact Iff.rfl

/-- The fraction is zero when its number is. -/
theorem unpackMantissa_eq_zero :
    unpackMantissa bits = BitVec.ofNat Format.binary64.mantissaBitsWithoutImplicit 0 ↔
      bits.toNat % 2 ^ 52 = 0 := by
  rw [← toNat_unpackMantissa, ← BitVec.toNat_inj]
  exact Iff.rfl

/-- The fraction behind a leading one. -/
theorem toNat_leading_unpackMantissa :
    (1#1 ++ unpackMantissa bits).toNat = 2 ^ 52 + bits.toNat % 2 ^ 52 := by
  rw [← toNat_unpackMantissa, BitVec.toNat_append, ← Nat.shiftLeft_add_eq_or_of_lt (BitVec.isLt _)]
  rfl

/-- The number that bits stand for: a fraction in the least place if the exponent is zero, a leading
one with a fraction behind it otherwise, and none at the exponent above all others. -/
theorem numberOf_unpack :
    numberOf (UnpackedFloat.unpack Format.binary64 bits) =
      if bits.toNat / 2 ^ 52 % 2048 = 2047 then none
      else if bits.toNat / 2 ^ 52 % 2048 = 0 then
        some (signed (decide (2 ^ 63 ≤ bits.toNat)) (bits.toNat % 2 ^ 52) * 2 ^ (-1074 : Int))
      else
        some (signed (decide (2 ^ 63 ≤ bits.toNat)) (2 ^ 52 + bits.toNat % 2 ^ 52) *
          2 ^ (((bits.toNat / 2 ^ 52 % 2048 : Nat) : Int) - 1075)) := by
  have sign (mantissa : Nat) : (((Sign.ofBitVec (unpackSign bits)).apply mantissa : Int) : Rat) =
      signed (decide (2 ^ 63 ≤ bits.toNat)) mantissa := by
    rw [ofBitVec_unpackSign, signed]
    split <;> simp_all [Sign.apply]
  have bias : ((Format.binary64.exponentBias : Nat) : Int) + (52 : Nat) = 1075 := rfl
  rw [UnpackedFloat.unpack]
  by_cases special : bits.toNat / 2 ^ 52 % 2048 = 2047
  · rw [if_pos special, if_pos ((unpackExponent_eq_top bits).mpr special)]
    split <;> rfl
  rw [if_neg special, if_neg (mt (unpackExponent_eq_top bits).mp special)]
  by_cases least : bits.toNat / 2 ^ 52 % 2048 = 0
  · rw [if_pos least, if_pos ((unpackExponent_eq_zero bits).mpr least)]
    by_cases zero : bits.toNat % 2 ^ 52 = 0
    · rw [dif_pos ((unpackMantissa_eq_zero bits).mpr zero), zero]
      simp [numberOf, signed]
    · rw [dif_neg (mt (unpackMantissa_eq_zero bits).mp zero), numberOf, sign,
        toNat_unpackExponent, toNat_unpackMantissa, least, bias]
      rfl
  · rw [if_neg least, if_neg (mt (unpackExponent_eq_zero bits).mp least), numberOf, sign,
      toNat_unpackExponent, toNat_leading_unpackMantissa, bias]

end Unpacking

/-- The parts of a double make up the number that it is. -/
theorem value?_eq (value : Float) : value? value = (parts value).value? := by
  have bits : value.toBits.toNat = value.toModel.toBits.toBitVec.toNat := rfl
  have power (exponent : Nat) : Decimal.powerOfTwo exponent = 2 ^ exponent := rfl
  rw [value?, Float.Model.unpack, numberOf_unpack, parts, bits]
  simp only [power]
  generalize value.toModel.toBits.toBitVec.toNat = bits
  by_cases special : bits / 2 ^ 52 % 2048 = 2047
  · have regular : ¬ bits / 2 ^ 52 % 2048 = 0 := by omega
    rw [if_pos special, if_neg regular, if_pos special]
    split <;> rfl
  · rw [if_neg special, if_neg special]
    split <;> rfl

/-- A double that is a number is taken apart into a sign, a mantissa and an exponent that make it
up. -/
theorem exists_parts {value : Float} {amount : Rat} (finite : value? value = some amount) :
    ∃ negative mantissa exponent, parts value = .finite negative mantissa exponent ∧
      signed negative mantissa * 2 ^ exponent = amount := by
  rw [value?_eq] at finite
  cases taken : parts value with
  | finite negative mantissa exponent =>
    rw [taken, Parts.value?] at finite
    exact ⟨negative, mantissa, exponent, rfl, Option.some.inj finite⟩
  | infinite negative => simp [taken, Parts.value?] at finite
  | undefined => simp [taken, Parts.value?] at finite

/-- A number with its sign is zero only if it is. -/
theorem signed_ne_zero (negative : Bool) {mantissa : Nat} (positive : 0 < mantissa) :
    signed negative mantissa ≠ 0 := by
  cases negative <;> simp [signed, positive.ne']

/-- The test for zero holds of both zeros and of nothing else. -/
theorem beq_zero_iff (value : Float) : (value == 0.0) = true ↔ value? value = some 0 := by
  have zero : (0.0 : Float).toModel.unpack = .zero .positive := by rfl
  change value.toModel.unpack.beq (0.0 : Float).toModel.unpack = true ↔ _
  rw [zero, value?, UnpackedFloat.beq]
  cases value.toModel.unpack with
  | zero sign => simp [UnpackedFloat.compare, numberOf]
  | infinity sign => cases sign <;> simp [UnpackedFloat.compare, numberOf]
  | notANumber => simp [UnpackedFloat.compare, numberOf]
  | finite sign mantissa exponent positive =>
    have power : (2 : Rat) ^ exponent ≠ 0 := zpow_ne_zero exponent two_ne_zero
    cases sign <;> simp [UnpackedFloat.compare, numberOf, Sign.apply, positive.ne', power]

/-- The bits of a finite double are those that it was made of. -/
theorem toBits_ofBits (negative : Bool) {bits : Nat} (finite : bits < infinityBits) :
    (ofBits negative bits).toBits.toNat = bits + if negative then 2 ^ 63 else 0 := by
  have infinity : infinityBits = 2047 * 2 ^ 52 := rfl
  have sign : (if negative then Decimal.powerOfTwo 63 else 0) =
      if negative then 2 ^ 63 else 0 := rfl
  rw [ofBits, sign]
  have small : bits + (if negative then 2 ^ 63 else 0) < 2 ^ 64 := by split <;> omega
  generalize whole : bits + (if negative then 2 ^ 63 else 0) = number at small ⊢
  let packed : BitVec Format.binary64.numBits := (UInt64.ofNat number).toBitVec
  have number_eq : packed.toNat = number := Nat.mod_eq_of_lt small
  have notTop : ¬ number / 2 ^ 52 % 2048 = 2047 := by
    subst whole
    split <;> omega
  have valid : Format.binary64.Valid packed := by
    refine ⟨fun top => ?_⟩
    rw [unpackExponent_eq_top, number_eq] at top
    exact absurd top notTop
  have same : UnpackedFloat.pack Format.binary64 (UnpackedFloat.unpack Format.binary64 packed) =
      packed := pack_unpack_of_valid valid
  exact (congrArg BitVec.toNat same).trans number_eq

/-- The number of a double from its bits: a mantissa with a leading one, or the next power of two, at
the place that the bits before it count. -/
theorem value?_ofBits (negative : Bool) {bits places mantissa : Nat}
    (parts : bits = places * 2 ^ 52 + mantissa) (leading : 2 ^ 52 ≤ mantissa)
    (most : mantissa ≤ 2 ^ 53) (finite : bits < infinityBits) :
    value? (ofBits negative bits) =
      some (signed negative mantissa * 2 ^ ((places : Int) - 1074)) := by
  have infinity : infinityBits = 2047 * 2 ^ 52 := rfl
  have taken : (ofBits negative bits).toModel.toBits.toBitVec.toNat =
      bits + if negative then 2 ^ 63 else 0 := toBits_ofBits negative finite
  rw [value?, Float.Model.unpack, numberOf_unpack, taken]
  have exponent : (bits + if negative then 2 ^ 63 else 0) / 2 ^ 52 % 2048 = bits / 2 ^ 52 := by
    split <;> omega
  have fraction : (bits + if negative then 2 ^ 63 else 0) % 2 ^ 52 = bits % 2 ^ 52 := by
    split <;> omega
  have sign : decide (2 ^ 63 ≤ bits + if negative then 2 ^ 63 else 0) = negative := by
    cases negative
    · simp
      omega
    · simp
  have regular : ¬ bits / 2 ^ 52 = 2047 ∧ ¬ bits / 2 ^ 52 = 0 := by omega
  rw [exponent, fraction, sign, if_neg regular.1, if_neg regular.2]
  -- A mantissa of fifty-four digits has carried into the exponent and left no fraction.
  rcases Nat.lt_or_eq_of_le most with less | carried
  · have quotient : bits / 2 ^ 52 = places + 1 := by omega
    have rest : 2 ^ 52 + bits % 2 ^ 52 = mantissa := by omega
    have place : ((places + 1 : Nat) : Int) - 1075 = places - 1074 := by
      push_cast
      ring
    rw [quotient, rest, place]
  · have quotient : bits / 2 ^ 52 = places + 2 := by omega
    have rest : 2 ^ 52 + bits % 2 ^ 52 = 2 ^ 52 := by omega
    have place : ((places + 2 : Nat) : Int) - 1075 = (places - 1074) + 1 := by
      push_cast
      ring
    have double : signed negative mantissa = signed negative (2 ^ 52) * 2 := by
      rw [carried]
      cases negative <;> norm_num [signed]
    rw [quotient, rest, place, double, zpow_add_one₀ two_ne_zero]
    congr 1
    ring

/-- The double nearest to an integer has its first fifty-three digits, rounded. -/
theorem value?_ofInt? {value : Int} {double : Float} (nonzero : value ≠ 0)
    (nearest : ofInt? value = some double) :
    ∃ mantissa : Nat, 2 ^ 52 ≤ mantissa ∧
      RoundsTo (value.natAbs * 2 ^ (52 - (value.natAbs.log2 : Int))) mantissa ∧
      value? double =
        some (signed (decide (value < 0)) mantissa * 2 ^ ((value.natAbs.log2 : Int) - 52)) := by
  rw [ofInt?, if_neg nonzero] at nearest
  obtain ⟨finite, same⟩ := Option.ite_none_right_eq_some.mp nearest
  obtain rfl := Option.some.inj same
  have positive : 0 < value.natAbs := Int.natAbs_pos.mpr nonzero
  have rounds := roundsTo_roundScaled value.natAbs Nat.one_pos (52 - value.natAbs.log2)
  obtain ⟨leading, most⟩ := roundScaled_between positive
  refine ⟨_, leading, ?_, ?_⟩
  · rwa [Nat.cast_one, div_one] at rounds
  · have place : ((value.natAbs.log2 + 1022 : Nat) : Int) - 1074 = value.natAbs.log2 - 52 := by
      push_cast
      ring
    rw [value?_ofBits _ (nearestBits_one positive) leading most finite, place]

/-- The double nearest to an integer is zero only for zero. -/
theorem value?_ofInt?_eq_zero {value : Int} {double : Float}
    (nearest : ofInt? value = some double) : value? double = some 0 ↔ value = 0 := by
  by_cases zero : value = 0
  · rw [ofInt?, if_pos zero] at nearest
    obtain rfl := Option.some.inj nearest
    have isZero : (ofBits false 0 == 0.0) = true := by decide
    exact iff_of_true ((beq_zero_iff _).mp isZero) zero
  · obtain ⟨mantissa, leading, -, number⟩ := value?_ofInt? zero nearest
    refine iff_of_false (fun none => ?_) zero
    have product := Option.some.inj (number.symm.trans none)
    have positive : 0 < mantissa := by omega
    exact mul_ne_zero (signed_ne_zero _ positive) (zpow_ne_zero _ two_ne_zero) product

end Double

end GrammarView
