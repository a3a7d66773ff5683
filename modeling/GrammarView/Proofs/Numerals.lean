import GrammarView.Decimal.Fixed
import GrammarView.Proofs.Digits
import Mathlib.Algebra.Order.Field.Rat
import Mathlib.Tactic

/-!
# Decimal numerals

The numerals of decimals with at most four places, as what is written is read by a person: a sign,
the digits before the point, and the digits behind it. Every multiple of a ten thousandth has
exactly one such numeral without needless zeros, point or sign.
-/

namespace GrammarView.Decimal

/-- A numeral with at most four places and nothing needless in it. -/
@[ext]
structure Numeral where
  negative : Bool
  whole : List Char
  fraction : List Char
  digitsBefore : AllDigits whole
  digitsBehind : AllDigits fraction
  /-- A digit stands before the point. -/
  given : whole ≠ []
  /-- Zero stands first only if it stands alone. -/
  minimal : whole.head? = some '0' → whole = ['0']
  short : fraction.length ≤ 4
  /-- No zero stands last behind the point. -/
  trimmed : fraction.getLast? ≠ some '0'
  /-- Zero has no sign. -/
  signed : negative = true → ¬ (whole = ['0'] ∧ fraction = [])

/-- The shortest numeral of a number of ten thousandths. -/
def numeral (units : Nat) : List Char :=
  let whole := Nat.toDigits 10 (units / 10000)
  match dropTrailing '0' (fractionDigits units) with
  | [] => whole
  | fraction => whole ++ '.' :: fraction

/-- There are four digits for the ten thousandths behind the point. -/
theorem length_fractionDigits (units : Nat) : (fractionDigits units).length = 4 := by
  have few : (Nat.toDigits 10 (units % 10000)).length ≤ 4 :=
    (Nat.length_toDigits_le_iff (by decide) (by decide)).mpr (Nat.mod_lt _ (by decide))
  rw [fractionDigits, length_paddedDigits]
  omega

/-- The digits that are written behind the point: no more than four, without a zero at the end, and
all but zeros of the ten thousandths. -/
theorem written_fraction {units : Nat} {fraction : List Char}
    (written : dropTrailing '0' (fractionDigits units) = fraction) :
    AllDigits fraction ∧ fraction.length ≤ 4 ∧ fraction.getLast? ≠ some '0' ∧
      fraction ++ List.replicate (4 - fraction.length) '0' = fractionDigits units := by
  obtain ⟨zeros, same, trimmed⟩ := exists_dropTrailing '0' (fractionDigits units)
  rw [written] at same trimmed
  have allDigits : AllDigits (fractionDigits units) := allDigits_paddedDigits _ _
  have length := length_fractionDigits units
  rw [same] at allDigits
  rw [same, List.length_append, List.length_replicate] at length
  have missing : 4 - fraction.length = zeros := by omega
  rw [missing]
  exact ⟨(List.forall_mem_append.mp allDigits).1, by omega, trimmed, same.symm⟩

namespace Numeral

/-- The characters of a numeral without its sign. There is a point only in front of digits. -/
def unsigned (numeral : Numeral) : List Char :=
  match numeral.fraction with
  | [] => numeral.whole
  | fraction => numeral.whole ++ '.' :: fraction

/-- The characters of a numeral. -/
def spelling (numeral : Numeral) : List Char :=
  if numeral.negative then '-' :: numeral.unsigned else numeral.unsigned

/-- The number that a numeral stands for, but for its sign. -/
def magnitude (numeral : Numeral) : Rat :=
  valueOfDigits numeral.whole + valueOfDigits numeral.fraction / 10 ^ numeral.fraction.length

/-- The number that a numeral stands for. -/
def value (numeral : Numeral) : Rat :=
  if numeral.negative then -numeral.magnitude else numeral.magnitude

/-- The digits behind the point, filled up with zeros. -/
def padded (numeral : Numeral) : List Char :=
  numeral.fraction ++ List.replicate (4 - numeral.fraction.length) '0'

/-- How many ten thousandths a numeral stands for, but for its sign. -/
def count (numeral : Numeral) : Nat :=
  valueOfDigits numeral.whole * 10000 + valueOfDigits numeral.padded

/-- How many ten thousandths a numeral stands for. -/
def units (numeral : Numeral) : Int :=
  if numeral.negative then -numeral.count else numeral.count

section Parts

variable (numeral : Numeral)

/-- There are four digits with the zeros. -/
theorem length_padded : numeral.padded.length = 4 := by
  have short := numeral.short
  rw [padded, List.length_append, List.length_replicate]
  omega

/-- The digits with the zeros are those of their value. -/
theorem paddedDigits_padded :
    valueOfDigits numeral.padded < 10000 ∧
      paddedDigits 10 4 (valueOfDigits numeral.padded) = numeral.padded := by
  have allDigits : AllDigits numeral.padded := by
    refine List.forall_mem_append.mpr ⟨numeral.digitsBehind, fun digit member => ?_⟩
    rw [List.eq_of_mem_replicate member]
    rfl
  have length := numeral.length_padded
  have given : numeral.padded ≠ [] := List.ne_nil_of_length_pos (by omega)
  have small := valueOfDigits_lt allDigits given
  have same := paddedDigits_valueOfDigits allDigits given
  rw [length] at small same
  exact ⟨small, same⟩

/-- The digits before the point are those of the whole number. -/
theorem whole_eq : numeral.whole = Nat.toDigits 10 (numeral.count / 10000) := by
  have small := numeral.paddedDigits_padded.1
  have whole : numeral.count / 10000 = valueOfDigits numeral.whole := by
    rw [count]
    omega
  rw [whole, toDigits_valueOfDigits numeral.digitsBefore numeral.given numeral.minimal]

/-- The digits behind the point are those of the rest. -/
theorem fraction_eq : numeral.fraction = dropTrailing '0' (fractionDigits numeral.count) := by
  obtain ⟨small, same⟩ := numeral.paddedDigits_padded
  have rest : numeral.count % 10000 = valueOfDigits numeral.padded := by
    rw [count]
    omega
  rw [fractionDigits, rest, same, padded, dropTrailing_append_replicate numeral.trimmed]

/-- A numeral with a sign does not stand for zero. -/
theorem count_pos (negative : numeral.negative = true) : 0 < numeral.count := by
  refine Nat.pos_of_ne_zero fun zero => numeral.signed negative ?_
  have whole := numeral.whole_eq
  have fraction := numeral.fraction_eq
  rw [zero] at whole fraction
  exact ⟨whole, fraction⟩

/-- The digits of a numeral stand for its ten thousandths. -/
theorem magnitude_eq : numeral.magnitude = numeral.count / 10000 := by
  have scale : (10 : Rat) ^ numeral.fraction.length * 10 ^ (4 - numeral.fraction.length) =
      10000 := by
    rw [← pow_add, Nat.add_sub_cancel' numeral.short]
    norm_num
  rw [magnitude, count, padded, valueOfDigits_append_replicate]
  push_cast
  rw [← scale]
  field_simp

/-- A numeral stands for its ten thousandths. -/
theorem value_eq : numeral.value = numeral.units / 10000 := by
  rw [value, units, magnitude_eq]
  split
  · push_cast
    rw [neg_div]
  · push_cast
    rfl

end Parts

/-- The numeral of a number of ten thousandths. -/
def ofUnits (units : Int) : Numeral where
  negative := decide (units < 0)
  whole := Nat.toDigits 10 (units.natAbs / 10000)
  fraction := dropTrailing '0' (fractionDigits units.natAbs)
  digitsBefore := allDigits_toDigits _
  digitsBehind := (written_fraction rfl).1
  given := Nat.toDigits_ne_nil
  minimal := by
    intro zero
    rcases Nat.eq_zero_or_pos (units.natAbs / 10000) with none | positive
    · rw [none]
      rfl
    · exact absurd zero (head_toDigits positive)
  short := (written_fraction rfl).2.1
  trimmed := (written_fraction rfl).2.2.1
  signed := by
    -- A numeral of zeros would be that of no ten thousandths at all.
    rintro negative ⟨before, behind⟩
    have rest := (written_fraction behind).2.2.2
    have quotient := congrArg valueOfDigits before
    have remainder := congrArg valueOfDigits rest.symm
    rw [valueOfDigits_toDigits] at quotient
    rw [fractionDigits, valueOfDigits_paddedDigits] at remainder
    have below : units < 0 := of_decide_eq_true negative
    have none : valueOfDigits ['0'] = 0 ∧
      valueOfDigits ([] ++ List.replicate (4 - List.length ([] : List Char)) '0') = 0 := ⟨rfl, rfl⟩
    omega

/-- The numeral of a number of ten thousandths stands for them. -/
theorem units_ofUnits (units : Int) : (ofUnits units).units = units := by
  have padded : (ofUnits units).padded = fractionDigits units.natAbs := (written_fraction rfl).2.2.2
  have count : (ofUnits units).count = units.natAbs := by
    rw [Numeral.count, padded, fractionDigits, valueOfDigits_paddedDigits, ofUnits,
      valueOfDigits_toDigits]
    omega
  have sign : (ofUnits units).negative = decide (units < 0) := rfl
  rw [Numeral.units, count, sign]
  split
  · have below : units < 0 := of_decide_eq_true ‹_›
    omega
  · have above : ¬ units < 0 := of_decide_eq_false (Bool.not_eq_true _ ▸ ‹_›)
    omega

/-- A numeral is that of the number of ten thousandths it stands for. -/
theorem ofUnits_units (numeral : Numeral) : ofUnits numeral.units = numeral := by
  have sign : decide (numeral.units < 0) = numeral.negative := by
    rw [units]
    cases negative : numeral.negative with
    | true =>
      have positive := numeral.count_pos negative
      simpa using positive
    | false => simp
  have count : numeral.units.natAbs = numeral.count := by
    rw [units]
    split <;> omega
  refine Numeral.ext sign ?_ ?_
  · rw [numeral.whole_eq, ← count]
    rfl
  · rw [numeral.fraction_eq, ← count]
    rfl

/-- The characters of the numeral of a number of ten thousandths. -/
theorem spelling_ofUnits (units : Int) :
    (ofUnits units).spelling =
      if units < 0 then '-' :: Decimal.numeral units.natAbs else Decimal.numeral units.natAbs := by
  rw [spelling]
  have unsigned : (ofUnits units).unsigned = Decimal.numeral units.natAbs := rfl
  have sign : (ofUnits units).negative = decide (units < 0) := rfl
  simp only [unsigned, sign, decide_eq_true_eq]

/-- There is one numeral for a value. -/
theorem eq_of_value_eq {first second : Numeral} (same : first.value = second.value) :
    first = second := by
  rw [value_eq, value_eq, div_left_inj' (by norm_num), Int.cast_inj] at same
  rw [← ofUnits_units first, same, ofUnits_units]

end Numeral

/-- The number that a text without a sign is read as: the digits before the point and those behind
it. -/
def readMagnitude (text : List Char) : Rat :=
  let fraction := (text.dropWhile Char.isDigit).tail
  valueOfDigits (text.takeWhile Char.isDigit) + valueOfDigits fraction / 10 ^ fraction.length

/-- The number that a text is read as. -/
def readNumeral : List Char → Rat
  | '-' :: text => -readMagnitude text
  | text => readMagnitude text

namespace Numeral

variable (numeral : Numeral)

/-- The characters of a numeral but for its sign are read as its magnitude. -/
theorem readMagnitude_unsigned : readMagnitude numeral.unsigned = numeral.magnitude := by
  have digits := numeral.digitsBefore
  rw [readMagnitude, magnitude, unsigned]
  cases numeral.fraction with
  | nil =>
    simp only
    rw [List.takeWhile_eq_self_iff.mpr digits, List.dropWhile_eq_nil_iff.mpr digits]
    rfl
  | cons first others =>
    simp only
    rw [List.takeWhile_append_of_pos digits, List.dropWhile_append_of_pos digits]
    simp

/-- No sign stands in front of the digits. -/
theorem unsigned_ne_minus (rest : List Char) : numeral.unsigned ≠ '-' :: rest := by
  intro same
  obtain ⟨first, others, whole⟩ := List.exists_cons_of_ne_nil numeral.given
  have isDigit := numeral.digitsBefore first (whole ▸ .head _)
  have minus : first = '-' := by
    rw [unsigned, whole] at same
    cases fraction : numeral.fraction <;> simp_all
  rw [minus] at isDigit
  contradiction

/-- A numeral is read as the number that it stands for. -/
theorem readNumeral_spelling : readNumeral numeral.spelling = numeral.value := by
  rw [spelling, value, ← readMagnitude_unsigned]
  split
  · rfl
  · rw [readNumeral]
    exact numeral.unsigned_ne_minus

/-- Different numbers of ten thousandths have different numerals. -/
theorem eq_of_spelling_eq {first second : Int}
    (alike : (ofUnits first).spelling = (ofUnits second).spelling) : first = second := by
  have same := congrArg readNumeral alike
  rwa [readNumeral_spelling, readNumeral_spelling, value_eq, value_eq, units_ofUnits,
    units_ofUnits, div_left_inj' (by norm_num), Int.cast_inj] at same

end Numeral

/-- Whether a text is the one numeral that stands for a value. -/
structure IsNumeralOf (text : List Char) (value : Rat) : Prop where
  spelled : ∃ numeral : Numeral, numeral.spelling = text ∧ numeral.value = value
  only : ∀ numeral : Numeral, numeral.value = value → numeral.spelling = text

/-- The numeral of a number of ten thousandths is the only one for its value. -/
theorem isNumeralOf_ofUnits (units : Int) :
    IsNumeralOf (Numeral.ofUnits units).spelling (units / 10000) := by
  have value : (Numeral.ofUnits units).value = units / 10000 := by
    rw [Numeral.value_eq, Numeral.units_ofUnits]
  refine ⟨⟨_, rfl, value⟩, fun numeral same => ?_⟩
  rw [Numeral.eq_of_value_eq (same.trans value.symm)]

/-- The one numeral of a value is read as that value. -/
theorem IsNumeralOf.readNumeral {text : List Char} {value : Rat}
    (isNumeral : IsNumeralOf text value) : readNumeral text = value := by
  obtain ⟨numeral, rfl, rfl⟩ := isNumeral.spelled
  exact numeral.readNumeral_spelling

end GrammarView.Decimal
