import GrammarView.Proofs.DoubleValues
import GrammarView.Proofs.Numerals

/-!
# Written lengths

Every length of a drawing is written as the numeral of the nearest ten thousandth. What is rounded
is the exact number that a double is, and halfway between two ten thousandths the even one is taken.
So two lengths are written alike exactly when they are rounded alike, and what is read back is off
by no more than half a ten thousandth.
-/

namespace GrammarView.Decimal

/-- A number is rounded to ten thousandths. -/
theorem roundsTo_tenThousandths (mantissa : Nat) (exponent : Int) :
    RoundsTo (mantissa * 2 ^ exponent * 10000) (tenThousandths mantissa exponent) := by
  have rounds := roundsTo_roundScaled (mantissa * 10000) Nat.one_pos exponent
  have same : ((mantissa * 10000 : Nat) : Rat) / (1 : Nat) * 2 ^ exponent =
      mantissa * 2 ^ exponent * 10000 := by
    push_cast
    ring
  rwa [same] at rounds

section Steps

/-- What is left of digits behind a point without the zeros and then the points at the end: the point
goes with the last digit behind it. -/
theorem dropTrailing_point {front fraction : List Char} (before : front.getLast? ≠ some '.')
    (behind : AllDigits fraction) :
    dropTrailing '.' (dropTrailing '0' (front ++ '.' :: fraction)) =
      match dropTrailing '0' fraction with
      | [] => front
      | digits => front ++ '.' :: digits := by
  obtain ⟨zeros, same, trimmed⟩ := exists_dropTrailing '0' fraction
  have digits : AllDigits (dropTrailing '0' fraction) := by
    rw [same] at behind
    exact (List.forall_mem_append.mp behind).1
  generalize dropTrailing '0' fraction = written at same trimmed digits
  have whole : front ++ '.' :: fraction =
      (front ++ '.' :: written) ++ List.replicate zeros '0' := by
    rw [same, List.append_assoc, List.cons_append]
  have last : (front ++ '.' :: written).getLast? = some (written.getLast?.getD '.') := by
    rw [List.getLast?_append, List.getLast?_cons, Option.some_or]
  cases final : written.getLast? with
  | none =>
    obtain rfl := List.getLast?_eq_none_iff.mp final
    rw [whole, dropTrailing_append_replicate (by rw [last]; decide), dropTrailing_append_self,
      dropTrailing_of_getLast? before]
  | some digit =>
    have isDigit := digits digit (List.mem_of_getLast? final)
    have noPoint : digit ≠ '.' := by
      rintro rfl
      contradiction
    rw [final] at trimmed last
    rw [whole, dropTrailing_append_replicate (last ▸ trimmed),
      dropTrailing_of_getLast? (by simpa [last] using noPoint)]
    cases written with
    | nil => contradiction
    | cons => rfl

/-- Four decimals without the zeros and the point at their end are the shortest numeral. -/
theorem dropTrailing_fourDecimals {value : Float} {negative : Bool} {mantissa : Nat} {exponent : Int}
    (taken : Double.parts value = .finite negative mantissa exponent) :
    dropTrailing '.' (dropTrailing '0' (fourDecimals value)) =
      signed negative (numeral (tenThousandths mantissa exponent)) := by
  simp only [fourDecimals, taken]
  generalize tenThousandths mantissa exponent = units
  have signed_append (front rest : List Char) :
      signed negative (front ++ rest) = signed negative front ++ rest := by
    cases negative <;> rfl
  have before : (signed negative (Nat.toDigits 10 (units / 10000))).getLast? ≠ some '.' := by
    intro point
    have among : '.' ∈ '-' :: Nat.toDigits 10 (units / 10000) := by
      cases negative with
      | false => exact .tail _ (List.mem_of_getLast? point)
      | true => exact List.mem_of_getLast? point
    rcases List.mem_cons.mp among with sign | digit
    · contradiction
    · exact absurd (allDigits_toDigits _ _ digit) (by decide)
  have behind : AllDigits (fractionDigits units) := allDigits_paddedDigits _ _
  rw [signed_append, dropTrailing_point before behind, numeral]
  cases dropTrailing '0' (fractionDigits units) with
  | nil => rfl
  | cons => exact (signed_append _ _).symm

/-- A double is written as the shortest numeral of its ten thousandths. Zero is written without a
sign. -/
theorem toList_number {value : Float} {negative : Bool} {mantissa : Nat} {exponent : Int}
    (taken : Double.parts value = .finite negative mantissa exponent) :
    (number value).toList = signed (negative && tenThousandths mantissa exponent != 0)
      (numeral (tenThousandths mantissa exponent)) := by
  rw [number, dropTrailing_fourDecimals taken]
  generalize tenThousandths mantissa exponent = units
  have spelled (units : Nat) : (Numeral.ofUnits units).spelling = numeral units := by
    have above : ¬ (units : Int) < 0 := by omega
    rw [Numeral.spelling_ofUnits, if_neg above, Int.natAbs_natCast]
  cases negative with
  | false =>
    have unsigned : numeral units ≠ ['-', '0'] :=
      (Numeral.ofUnits units).unsigned_ne_minus ['0']
    rw [signed, if_neg Bool.false_ne_true, if_neg unsigned, String.toList_ofList]
    rfl
  | true =>
    by_cases zero : units = 0
    · rw [zero]
      rfl
    · have other : numeral units ≠ ['0'] := by
        intro same
        rw [← spelled] at same
        have none : (units : Int) = 0 := Numeral.eq_of_spelling_eq (same.trans (spelled 0).symm)
        omega
      have sign : (true && units != 0) = true := by simp [zero]
      have kept : signed true (numeral units) ≠ ['-', '0'] := by simpa [signed] using other
      rw [if_neg kept, String.toList_ofList, sign]

end Steps

/-- What is written of a double is the numeral of the ten thousandths to which it is rounded. -/
theorem exists_units_number {value : Float} {amount : Rat}
    (finite : Double.value? value = some amount) :
    ∃ units, RoundsTo (amount * 10000) units ∧
      (number value).toList = (Numeral.ofUnits units).spelling := by
  obtain ⟨negative, mantissa, exponent, taken, rfl⟩ := Double.exists_parts finite
  have rounds := roundsTo_tenThousandths mantissa exponent
  rw [toList_number taken]
  generalize tenThousandths mantissa exponent = units at rounds ⊢
  cases negative with
  | false =>
    have above : ¬ (units : Int) < 0 := by omega
    refine ⟨units, rounds, ?_⟩
    rw [Numeral.spelling_ofUnits, if_neg above]
    rfl
  | true =>
    have opposite := rounds.neg
    rw [← neg_mul, ← neg_mul] at opposite
    refine ⟨-units, opposite, ?_⟩
    rw [Numeral.spelling_ofUnits, Int.natAbs_neg, Int.natAbs_natCast]
    -- Zero is the one number whose numeral has no sign on either side.
    rcases Nat.eq_zero_or_pos units with rfl | positive
    · rfl
    · have sign : (true && units != 0) = true := by simp [positive.ne']
      have below : -(units : Int) < 0 := by omega
      rw [sign, if_pos below]
      rfl

/-- An integer is written like as many whole numbers of ten thousandths. -/
theorem toList_integer (value : Int) :
    (integer value).toList = (Numeral.ofUnits (value * 10000)).spelling := by
  have whole (magnitude : Nat) : numeral (magnitude * 10000) = Nat.toDigits 10 magnitude := by
    have quotient : magnitude * 10000 / 10000 = magnitude := by omega
    have rest : magnitude * 10000 % 10000 = 0 := by omega
    have digits : dropTrailing '0' (paddedDigits 10 4 0) = [] := rfl
    rw [numeral, fractionDigits, quotient, rest, digits]
  rw [Numeral.spelling_ofUnits, integer, Int.natAbs_mul]
  cases value with
  | ofNat magnitude =>
    have above : ¬ Int.ofNat magnitude * 10000 < 0 := by
      rw [Int.ofNat_eq_natCast]
      omega
    rw [if_neg above]
    simpa [Int.repr_eq_if] using (whole magnitude).symm
  | negSucc magnitude =>
    have below : Int.negSucc magnitude * 10000 < 0 := by omega
    rw [if_pos below]
    simpa [Int.repr_eq_if] using (whole (magnitude + 1)).symm

/-- A number is no further than half a ten thousandth away from the ten thousandths to which it is
rounded. -/
theorem RoundsTo.near {amount : Rat} {units : Int} (rounds : RoundsTo (amount * 10000) units) :
    |(units : Rat) / 10000 - amount| ≤ 1 / 20000 := by
  have distance := abs_le.mp rounds.1
  rw [abs_le]
  constructor <;> linarith

/-- Lengths are written as rounded decimals. An integer is written as its numeral. A finite double
is written as the numeral of the ten thousandths nearest to it, of two equally near ones the even
one: with at most four digits behind the point and a digit before it, without a zero or a point at
the end, and without a sign in front of zero. What is written is read as a number no further than
half a ten thousandth away, and two doubles are written alike exactly when they are rounded
alike. -/
theorem lengths_written_as_rounded_numerals :
    (∀ value : Int, IsNumeralOf (integer value).toList value) ∧
      ∀ (value : Float) (amount : Rat), Double.value? value = some amount →
        (∃ units : Int, RoundsTo (amount * 10000) units ∧
          IsNumeralOf (number value).toList (units / 10000)) ∧
        |readNumeral (number value).toList - amount| ≤ 1 / 20000 ∧
        ∀ (other : Float) (otherAmount : Rat), Double.value? other = some otherAmount →
          (number value = number other ↔
            ∃ units, RoundsTo (amount * 10000) units ∧ RoundsTo (otherAmount * 10000) units) := by
  constructor
  · intro value
    have isNumeral := isNumeralOf_ofUnits (value * 10000)
    rw [← toList_integer] at isNumeral
    push_cast at isNumeral
    rwa [mul_div_cancel_right₀ _ (by norm_num)] at isNumeral
  intro value amount finite
  obtain ⟨units, rounds, written⟩ := exists_units_number finite
  have isNumeral : IsNumeralOf (number value).toList (units / 10000) :=
    written ▸ isNumeralOf_ofUnits units
  refine ⟨⟨units, rounds, isNumeral⟩, ?_, fun other otherAmount otherFinite => ?_⟩
  · rw [isNumeral.readNumeral]
    exact rounds.near
  obtain ⟨otherUnits, otherRounds, otherWritten⟩ := exists_units_number otherFinite
  constructor
  · intro alike
    rw [alike, otherWritten] at written
    obtain rfl := Numeral.eq_of_spelling_eq written
    exact ⟨otherUnits, rounds, otherRounds⟩
  · rintro ⟨common, rounded, otherRounded⟩
    obtain rfl := rounds.unique rounded
    obtain rfl := otherRounds.unique otherRounded
    exact String.toList_inj.mp (written.trans otherWritten.symm)

/-- A length below zero that is rounded to zero has no sign. -/
example : number (-0.00003) = "0" := by
  decide +kernel

/-- A thirty-second part lies halfway between two ten thousandths and is written as the even one. -/
theorem thirty_second_written_as_even :
    Double.value? 0.03125 = some (1 / 32) ∧ RoundsTo (1 / 32 * 10000) 312 ∧
      IsNumeralOf (number 0.03125).toList (312 / 10000) ∧
      |readNumeral "0.0312".toList - 1 / 32| ≤ 1 / 20000 := by
  have parts : Double.parts 0.03125 = .finite false 4503599627370496 (-57) := by decide
  have amount : Double.value? 0.03125 = some (1 / 32) := by
    rw [Double.value?_eq, parts]
    norm_num [Double.Parts.value?, Double.signed]
  have half : |(1 / 32 * 10000 : Rat) - (312 : Int)| = 1 / 2 := by norm_num
  have tie : RoundsTo (1 / 32 * 10000) 312 := ⟨half.le, fun _ => by decide⟩
  obtain ⟨⟨units, rounds, isNumeral⟩, near, -⟩ :=
    lengths_written_as_rounded_numerals.2 0.03125 (1 / 32) amount
  obtain rfl := rounds.unique tie
  rw [Int.cast_ofNat] at isNumeral
  have text : number 0.03125 = "0.0312" := by decide +kernel
  exact ⟨amount, tie, isNumeral, text ▸ near⟩

end GrammarView.Decimal
