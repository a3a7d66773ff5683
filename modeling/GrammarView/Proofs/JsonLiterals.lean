import GrammarView.Json.Token
import Mathlib.Data.List.Find
import Mathlib.Data.List.TakeWhile

/-!
# Literals of a JSON text

Numbers and the words for values end on their own, so the reader has to look at what stands behind
them. It is enough that no letter, digit, sign or point stands there: then the same literal is read
whatever follows.
-/

namespace GrammarView.Json

/-- Whether a character can be part of a literal. -/
def continuesLiteral (character : Char) : Bool :=
  character.isAlphanum || character == '+' || character == '-' || character == '.'

/-- A text in front of which every literal ends. -/
def Stops (text : List Char) : Prop :=
  ∀ character ∈ text.head?, continuesLiteral character = false

variable {run rest : List Char}

/-- Digits end where literals do. -/
theorem takeWhile_isDigit_append (stops : Stops rest) (run : List Char) :
    (run ++ rest).takeWhile Char.isDigit = run.takeWhile Char.isDigit := by
  induction run with
  | nil =>
    cases rest with
    | nil => rfl
    | cons stop rest =>
      have apart := stops stop rfl
      simp only [continuesLiteral, Char.isAlphanum, Bool.or_eq_false_iff] at apart
      simp [apart.1.1.1.2]
  | cons character run inductionHypothesis =>
    simp [List.takeWhile_cons, inductionHypothesis]

/-- A word ends where literals do. -/
theorem isPrefixOf_append {word : List Char} (letters : word.all continuesLiteral)
    (stops : Stops rest) (run : List Char) :
    word.isPrefixOf (run ++ rest) = word.isPrefixOf run := by
  induction word generalizing run with
  | nil => simp
  | cons letter word inductionHypothesis =>
    obtain ⟨first, others⟩ := Bool.and_eq_true_iff.mp letters
    cases run with
    | nil =>
      cases rest with
      | nil => rfl
      | cons stop rest =>
        have different : letter ≠ stop := by
          rintro rfl
          have apart := stops letter rfl
          rw [first] at apart
          contradiction
        simp [List.isPrefixOf, different]
    | cons character run => simp [List.isPrefixOf, inductionHypothesis others]

/-- A character at which literals end is no letter, sign or point. -/
theorem ne_of_stops {stop : Char} (stops : Stops (stop :: rest)) (character : Char)
    (part : continuesLiteral character = true) : stop ≠ character := by
  rintro rfl
  have apart := stops stop rfl
  rw [part] at apart
  contradiction

theorem wholeOf_append (stops : Stops rest) (run : List Char) :
    wholeOf (run ++ rest) = wholeOf run := by
  have digits := takeWhile_isDigit_append stops run
  cases run with
  | nil =>
    cases rest with
    | nil => rfl
    | cons stop rest =>
      have zero := ne_of_stops stops '0' (by decide)
      simpa [wholeOf, zero] using digits
  | cons character run =>
    by_cases zero : character = '0'
    · subst zero
      rfl
    · simpa [wholeOf, zero] using digits

theorem fractionOf_append (stops : Stops rest) (run : List Char) :
    fractionOf (run ++ rest) = fractionOf run := by
  cases run with
  | nil =>
    cases rest with
    | nil => rfl
    | cons stop rest =>
      have point := ne_of_stops stops '.' (by decide)
      simp [fractionOf, point]
  | cons character run =>
    by_cases point : character = '.'
    · subst point
      exact takeWhile_isDigit_append stops run
    · simp [fractionOf, point]

theorem exponentOf_append (stops : Stops rest) (run : List Char) :
    exponentOf (run ++ rest) = exponentOf run := by
  cases run with
  | nil =>
    cases rest with
    | nil => rfl
    | cons stop rest =>
      have small := ne_of_stops stops 'e' (by decide)
      have large := ne_of_stops stops 'E' (by decide)
      simp [exponentOf, small, large]
  | cons mark run =>
    cases run with
    | nil =>
      have digits := takeWhile_isDigit_append stops []
      cases rest with
      | nil => rfl
      | cons stop rest =>
        have minus := ne_of_stops stops '-' (by decide)
        have plus := ne_of_stops stops '+' (by decide)
        simp_all [exponentOf]
    | cons sign run =>
      have digits := takeWhile_isDigit_append stops run
      have unsigned := takeWhile_isDigit_append stops (sign :: run)
      rw [List.cons_append] at unsigned
      by_cases minus : sign = '-'
      · subst minus
        simp [exponentOf, digits]
      by_cases plus : sign = '+'
      · subst plus
        simp [exponentOf, digits]
      simp [exponentOf, minus, plus, unsigned]

/-- The digits before the point are at the beginning of the text. -/
theorem length_wholeOf_le (run : List Char) : (wholeOf run).length ≤ run.length := by
  unfold wholeOf
  split
  · simp
  · exact (List.takeWhile_sublist _).length_le

/-- The fraction and its point are at the beginning of the text. -/
theorem length_fractionOf_lt {run : List Char} (given : (fractionOf run).isEmpty = false) :
    (fractionOf run).length + 1 ≤ run.length := by
  unfold fractionOf at given ⊢
  split at given
  · exact Nat.succ_le_succ (List.takeWhile_sublist _).length_le
  · contradiction

/-- How many characters a fraction takes. -/
def fractionWidth (run : List Char) : Nat :=
  if (fractionOf run).isEmpty then 0 else (fractionOf run).length + 1

theorem fractionWidth_le (run : List Char) : fractionWidth run ≤ run.length := by
  unfold fractionWidth
  split
  · exact Nat.zero_le _
  · exact length_fractionOf_lt (Bool.eq_false_iff.mpr ‹_›)

theorem exponentOf_width_le {run digits : List Char} {below : Bool} {width : Nat}
    (found : exponentOf run = some (below, digits, width)) : width ≤ run.length := by
  cases run with
  | nil => simp [exponentOf] at found
  | cons mark rest =>
    cases rest with
    | nil => simp [exponentOf] at found
    | cons sign rest =>
      have short := (List.takeWhile_sublist Char.isDigit (l := rest)).length_le
      by_cases minus : sign = '-'
      · simp [exponentOf, minus] at found
        obtain ⟨-, -, -, -, rfl⟩ := found
        simp only [List.length_cons]
        omega
      by_cases plus : sign = '+'
      · simp [exponentOf, plus] at found
        obtain ⟨-, -, -, -, rfl⟩ := found
        simp only [List.length_cons]
        omega
      · have short := (List.takeWhile_sublist Char.isDigit (l := sign :: rest)).length_le
        simp [exponentOf, minus, plus] at found
        obtain ⟨-, -, -, -, rfl⟩ := found
        simp only [List.length_cons] at short ⊢
        omega

theorem unsignedNumber?_append (stops : Stops rest) (negative : Bool) (run : List Char) :
    unsignedNumber? negative (run ++ rest) = unsignedNumber? negative run := by
  unfold unsignedNumber?
  have whole : (run ++ rest).drop (wholeOf run).length = run.drop (wholeOf run).length ++ rest :=
    List.drop_append_of_le_length (length_wholeOf_le run)
  have fraction (behind : List Char) : (behind ++ rest).drop (fractionWidth behind) =
      behind.drop (fractionWidth behind) ++ rest :=
    List.drop_append_of_le_length (fractionWidth_le behind)
  unfold fractionWidth at fraction
  simp only [wholeOf_append stops, whole, fractionOf_append stops, fraction,
    exponentOf_append stops]

theorem unsignedNumber?_width {negative : Bool} {value : Json} {width : Nat}
    (found : unsignedNumber? negative run = some (value, width)) :
    0 < width ∧ width ≤ run.length := by
  have whole := length_wholeOf_le run
  have fraction := fractionWidth_le (run.drop (wholeOf run).length)
  unfold fractionWidth at fraction
  unfold unsignedNumber? at found
  simp only at found
  split at found
  case isTrue => contradiction
  case isFalse given =>
    have positive : 0 < (wholeOf run).length := by
      rw [List.isEmpty_iff] at given
      exact List.length_pos_iff.mpr given
    split at found
    case h_1 below digits exponentWidth exponent =>
      have short := exponentOf_width_le exponent
      cases found
      simp only [List.length_drop] at fraction short
      omega
    case h_2 =>
      split at found
      case isTrue =>
        cases found
        exact ⟨positive, whole⟩
      case isFalse point =>
        cases found
        rw [if_neg point] at fraction
        simp only [List.length_drop] at fraction
        omega

/-- Literals do not depend on what stands behind the characters that they could be made of. -/
theorem literal?_append (stops : Stops rest) (run : List Char) :
    literal? (run ++ rest) = literal? run := by
  have letters : ∀ word ∈ words, word.1.all continuesLiteral = true := by decide
  have same : words.find? (fun word => word.1.isPrefixOf (run ++ rest)) =
      words.find? fun word => word.1.isPrefixOf run :=
    List.find?_congr fun word member => isPrefixOf_append (letters word member) stops run
  unfold literal?
  rw [same]
  split
  · rfl
  · cases run with
    | nil =>
      cases rest with
      | nil => rfl
      | cons stop rest =>
        have minus := ne_of_stops stops '-' (by decide)
        have number := unsignedNumber?_append stops false []
        simpa [minus] using number
    | cons character run =>
      by_cases minus : character = '-'
      · subst minus
        simp [unsignedNumber?_append stops]
      · have number := unsignedNumber?_append stops false (character :: run)
        rw [List.cons_append] at number
        simp [minus, number]

/-- A literal takes characters of the text. -/
theorem literal?_width {value : Json} {width : Nat} (found : literal? run = some (value, width)) :
    0 < width ∧ width ≤ run.length := by
  unfold literal? at found
  split at found
  case h_1 word listed =>
    cases found
    have found : word.1.isPrefixOf run = true := by simpa using List.find?_some listed
    have before := List.isPrefixOf_iff_prefix.mp found
    have member := List.mem_of_find?_eq_some listed
    have long : ∀ word ∈ words, 0 < word.1.length := by decide
    exact ⟨long word member, before.length_le⟩
  case h_2 =>
    split at found
    case h_1 rest =>
      obtain ⟨⟨value, inner⟩, number, same⟩ := Option.map_eq_some_iff.mp found
      cases same
      exact ⟨Nat.succ_pos _, Nat.succ_le_succ (unsignedNumber?_width number).2⟩
    case h_2 => exact unsignedNumber?_width found

/-- A literal begins with a character of literals. -/
theorem continuesLiteral_of_literal? {character : Char} {found : Json × Nat}
    (literal : literal? (character :: run) = some found) : continuesLiteral character = true := by
  by_contra other
  have stops : Stops (character :: run) := by
    rintro _ ⟨⟩
    exact Bool.eq_false_iff.mpr other
  have none := literal?_append stops []
  rw [List.nil_append, literal] at none
  contradiction

end GrammarView.Json
