/-!
# Lines

A text as the list of its lines. Only the line feed ends a line, so a text always has one line
more than it has line feeds, and joining the lines gives the text back.
-/

namespace GrammarView

/-- The lines of a text: the pieces between its line feeds, empty ones included. -/
def linesOf : List Char → List (List Char)
  | [] => [[]]
  | character :: rest =>
    if character = '\n' then
      [] :: linesOf rest
    else
      match linesOf rest with
      | [] => [[character]]
      | line :: lines => (character :: line) :: lines

/-- What follows the first line of a text, the line feed that ends it left out. -/
def afterFirstLine (characters : List Char) : List Char :=
  (characters.dropWhile (· ≠ '\n')).drop 1

/-- A text has at least one line. -/
theorem linesOf_ne_nil (characters : List Char) : linesOf characters ≠ [] := by
  cases characters with
  | nil => simp [linesOf]
  | cons character rest =>
    simp only [linesOf]
    split
    · simp
    · split <;> simp

/-- What follows the first line is no longer than the text. -/
theorem length_afterFirstLine_le (characters : List Char) :
    (afterFirstLine characters).length ≤ characters.length := by
  have dropped := (List.dropWhile_sublist (fun c => decide (c ≠ '\n')) (l := characters)).length_le
  simp only [afterFirstLine, List.length_drop]
  omega

end GrammarView
