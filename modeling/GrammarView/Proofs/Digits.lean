import GrammarView.Decimal.Numeral
import GrammarView.Text.Digit
import Mathlib.Data.List.DropRight
import Mathlib.Tactic.Ring

/-!
# Digits and their values

The digits of a number have its value, and they are the only ones that have it: among the decimal
digits without a zero at their front, and among those of a given count. Zeros at the end of digits
multiply their value and are what is dropped there.
-/

namespace GrammarView

open Decimal (valueOfDigits)

/-- The numeral of a number ends with its last digit. -/
theorem paddedDigits_succ {base count : Nat} (large : 1 < base) (positive : 0 < count)
    (value : Nat) :
    paddedDigits base (count + 1) value =
      paddedDigits base count (value / base) ++ [Nat.digitChar (value % base)] := by
  unfold paddedDigits
  rcases Nat.lt_or_ge value base with small | beyond
  · obtain ⟨zeros, rfl⟩ := Nat.exists_eq_add_of_lt positive
    rw [Nat.toDigits_of_lt_base small, Nat.div_eq_of_lt small, Nat.mod_eq_of_lt small,
      Nat.toDigits_zero]
    simp [List.replicate_succ']
  · rw [Nat.toDigits_of_base_le large beyond]
    simp

/-- A numeral in a given count has more digits only if the number has. -/
theorem length_paddedDigits (base count value : Nat) :
    (paddedDigits base count value).length = max count (Nat.toDigits base value).length := by
  rw [paddedDigits, List.length_append, List.length_replicate]
  omega

/-- The numeral of a positive number does not begin with zero. -/
theorem head_toDigits {value : Nat} (positive : 0 < value) :
    (Nat.toDigits 10 value).head? ≠ some '0' := by
  induction value using Nat.strong_induction_on with
  | _ value inductionHypothesis =>
    rcases Nat.lt_or_ge value 10 with small | large
    · rw [Nat.toDigits_of_lt_base small]
      simp
      omega
    · have shorter := inductionHypothesis (value / 10) (by omega) (by omega)
      rw [Nat.toDigits_of_base_le (by decide) large]
      cases same : Nat.toDigits 10 (value / 10) with
      | nil => exact absurd same Nat.toDigits_ne_nil
      | cons first others =>
        rw [same] at shorter
        simpa using shorter

/-- Whether all characters are decimal digits. -/
def AllDigits (digits : List Char) : Prop :=
  ∀ digit ∈ digits, digit.isDigit = true

/-- The digits of a number are digits. -/
theorem allDigits_toDigits (value : Nat) : AllDigits (Nat.toDigits 10 value) :=
  fun _ member => Nat.isDigit_of_mem_toDigits (by decide) (by decide) member

/-- The digits of a number in a given count are digits. -/
theorem allDigits_paddedDigits (count value : Nat) : AllDigits (paddedDigits 10 count value) := by
  intro digit member
  rcases List.mem_append.mp member with zeros | digits
  · rw [List.eq_of_mem_replicate zeros]
    rfl
  · exact allDigits_toDigits value digit digits

section Values

variable {digits : List Char}

/-- One more digit multiplies the value of those before it by ten. -/
theorem valueOfDigits_append_singleton (digits : List Char) (digit : Char) :
    valueOfDigits (digits ++ [digit]) = valueOfDigits digits * 10 + (digit.toNat - 48) := by
  simp [valueOfDigits]

/-- The digits of a number have its value. -/
theorem valueOfDigits_toDigits (value : Nat) : valueOfDigits (Nat.toDigits 10 value) = value := by
  have same := Nat.ofDigitChars_ten_toDigits (n := value)
  rw [Nat.ofDigitChars_eq_foldl] at same
  rw [valueOfDigits]
  simpa [Nat.mul_comm] using same

/-- Zeros at the front do not count. -/
theorem valueOfDigits_replicate_append (zeros : Nat) (digits : List Char) :
    valueOfDigits (List.replicate zeros '0' ++ digits) = valueOfDigits digits := by
  induction zeros with
  | zero => rfl
  | succ zeros inductionHypothesis => exact inductionHypothesis

/-- The digits of a number in a given count have its value. -/
theorem valueOfDigits_paddedDigits (count value : Nat) :
    valueOfDigits (paddedDigits 10 count value) = value := by
  rw [paddedDigits, valueOfDigits_replicate_append, valueOfDigits_toDigits]

/-- Every zero at the end multiplies the value by ten. -/
theorem valueOfDigits_append_replicate (digits : List Char) (zeros : Nat) :
    valueOfDigits (digits ++ List.replicate zeros '0') = valueOfDigits digits * 10 ^ zeros := by
  induction zeros with
  | zero => simp
  | succ zeros inductionHypothesis =>
    rw [List.replicate_succ', ← List.append_assoc, valueOfDigits_append_singleton,
      inductionHypothesis, Nat.pow_succ, Nat.mul_assoc]
    rfl

/-- The value of digits parts into that of the last one and that of those before it. -/
theorem valueOfDigits_parts (front : List Char) {digit : Char} (isDigit : digit.isDigit = true) :
    valueOfDigits (front ++ [digit]) / 10 = valueOfDigits front ∧
      Nat.digitChar (valueOfDigits (front ++ [digit]) % 10) = digit := by
  have bounds : 48 ≤ digit.toNat ∧ digit.toNat ≤ 57 := by
    simpa [Char.isDigit, Char.le_def, UInt32.le_iff_toNat_le] using isDigit
  rw [valueOfDigits_append_singleton]
  refine ⟨by omega, Char.toNat_inj.mp ?_⟩
  rw [Nat.toNat_digitChar_of_lt_ten (Nat.mod_lt _ (by decide))]
  omega

/-- A single digit is that of its value. -/
theorem toDigits_single {digit : Char} (isDigit : digit.isDigit = true) :
    Nat.toDigits 10 (valueOfDigits [digit]) = [digit] := by
  obtain ⟨quotient, remainder⟩ := valueOfDigits_parts [] isDigit
  rw [List.nil_append] at quotient remainder
  have small : valueOfDigits [digit] < 10 := (Nat.div_eq_zero_iff_lt (by decide)).mp quotient
  rw [Nat.mod_eq_of_lt small] at remainder
  rw [Nat.toDigits_of_lt_base small, remainder]

/-- Digits are those of their value in their count. -/
theorem paddedDigits_valueOfDigits (allDigits : AllDigits digits) (given : digits ≠ []) :
    paddedDigits 10 digits.length (valueOfDigits digits) = digits := by
  -- From the last digit on, as it is the last digit that a quotient by ten leaves out.
  induction digits using List.reverseRecOn with
  | nil => contradiction
  | append_singleton front digit inductionHypothesis =>
    obtain ⟨frontDigits, lastDigits⟩ := List.forall_mem_append.mp allDigits
    obtain ⟨quotient, remainder⟩ := valueOfDigits_parts front (lastDigits digit (.head _))
    rw [List.length_append, List.length_singleton]
    by_cases single : front = []
    · rw [single, List.nil_append, paddedDigits, toDigits_single (lastDigits digit (.head _))]
      rfl
    · rw [paddedDigits_succ (by decide) (List.length_pos_of_ne_nil single), quotient, remainder,
        inductionHypothesis frontDigits single]

/-- Digits have a value below the power of ten that their count is. -/
theorem valueOfDigits_lt (allDigits : AllDigits digits) (given : digits ≠ []) :
    valueOfDigits digits < 10 ^ digits.length := by
  have length := congrArg List.length (paddedDigits_valueOfDigits allDigits given)
  rw [length_paddedDigits] at length
  rw [← Nat.length_toDigits_le_iff (by decide) (List.length_pos_of_ne_nil given)]
  omega

/-- Digits are those of their value if they do not begin with a needless zero. -/
theorem toDigits_valueOfDigits (allDigits : AllDigits digits) (given : digits ≠ [])
    (minimal : digits.head? = some '0' → digits = ['0']) :
    Nat.toDigits 10 (valueOfDigits digits) = digits := by
  induction digits using List.reverseRecOn with
  | nil => contradiction
  | append_singleton front digit inductionHypothesis =>
    obtain ⟨frontDigits, lastDigits⟩ := List.forall_mem_append.mp allDigits
    obtain ⟨quotient, remainder⟩ := valueOfDigits_parts front (lastDigits digit (.head _))
    by_cases single : front = []
    · rw [single, List.nil_append, toDigits_single (lastDigits digit (.head _))]
    · -- A zero at the front would stand before the last digit.
      have head : front.head? ≠ some '0' := by
        intro zero
        have alone := congrArg List.length (minimal (by rw [List.head?_append, zero]; rfl))
        simp [single] at alone
      have same := inductionHypothesis frontDigits single fun zero => absurd zero head
      have large : 10 ≤ valueOfDigits (front ++ [digit]) := by
        by_contra small
        have zero : valueOfDigits front = 0 := by omega
        rw [zero, Nat.toDigits_zero] at same
        exact head (same ▸ rfl)
      rw [Nat.toDigits_of_base_le (by decide) large, quotient, remainder, same]

end Values

section Trailing

variable {last : Char} {text : List Char}

/-- The character at the end is dropped. -/
theorem dropTrailing_append_self (last : Char) (text : List Char) :
    dropTrailing last (text ++ [last]) = dropTrailing last text :=
  List.rdropWhile_concat_pos _ _ _ (decide_eq_true rfl)

/-- Nothing is dropped behind another character. -/
theorem dropTrailing_of_getLast? (other : text.getLast? ≠ some last) :
    dropTrailing last text = text := by
  refine List.rdropWhile_eq_self_iff.mpr fun given same => other ?_
  rw [List.getLast?_eq_some_getLast given, of_decide_eq_true same]

/-- All characters at the end are dropped. -/
theorem dropTrailing_append_replicate (other : text.getLast? ≠ some last) (count : Nat) :
    dropTrailing last (text ++ List.replicate count last) = text := by
  induction count with
  | zero => rw [List.replicate_zero, List.append_nil, dropTrailing_of_getLast? other]
  | succ count inductionHypothesis =>
    rw [List.replicate_succ', ← List.append_assoc, dropTrailing_append_self, inductionHypothesis]

/-- A text is what is left of it, which does not end with the character, with the characters that
were dropped. -/
theorem exists_dropTrailing (last : Char) (text : List Char) :
    ∃ count, text = dropTrailing last text ++ List.replicate count last ∧
      (dropTrailing last text).getLast? ≠ some last := by
  induction text using List.reverseRecOn with
  | nil => exact ⟨0, rfl, nofun⟩
  | append_singleton front character inductionHypothesis =>
    by_cases same : character = last
    · obtain ⟨count, parts, other⟩ := inductionHypothesis
      rw [same, dropTrailing_append_self]
      refine ⟨count + 1, ?_, other⟩
      rw [List.replicate_succ', ← List.append_assoc, ← parts]
    · have other : (front ++ [character]).getLast? ≠ some last := by simpa using same
      rw [dropTrailing_of_getLast? other]
      exact ⟨0, (List.append_nil _).symm, other⟩

end Trailing

end GrammarView
