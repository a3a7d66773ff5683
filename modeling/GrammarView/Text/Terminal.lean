/-!
# Plain output

What is left of a text when it is not printed on a terminal: the sequences that would change
colours or move the cursor are taken out.
-/

namespace GrammarView

/-- The characters that may stand inside a control sequence. -/
def isControlParameter (character : Char) : Bool :=
  character.isDigit || character == ';' || character == '?'

/-- What follows the control sequence at the beginning of a text, when there is one. A sequence
is an escape, an opening bracket, parameters and a letter. -/
def afterControl? : List Char → Option (List Char)
  | '\x1b' :: '[' :: rest =>
    match rest.dropWhile isControlParameter with
    | last :: after => if last.isAlpha then some after else none
    | [] => none
  | _ => none

/-- A control sequence is not empty. -/
theorem length_afterControl?_lt {characters after : List Char}
    (found : afterControl? characters = some after) : after.length < characters.length := by
  unfold afterControl? at found
  split at found
  · rename_i rest
    have shorter := (List.dropWhile_sublist isControlParameter (l := rest)).length_le
    split at found
    · rename_i last remaining equal
      split at found
      · simp only [Option.some.injEq] at found
        subst found
        rw [equal] at shorter
        simp only [List.length_cons] at shorter ⊢
        omega
      · simp at found
    · simp at found
  · simp at found

/-- The text without its control sequences. -/
def dropControls (characters : List Char) : List Char :=
  match characters with
  | [] => []
  | character :: rest =>
    match _found : afterControl? (character :: rest) with
    | some after => dropControls after
    | none => character :: dropControls rest
termination_by characters.length
decreasing_by
  · exact length_afterControl?_lt _found
  · simp

end GrammarView
