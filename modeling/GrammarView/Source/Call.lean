import GrammarView.Source.Basic
import GrammarView.Text.Blank
import GrammarView.Text.Lines
import GrammarView.Text.Word

/-!
# Descriptions inside a call

The other form of a grammar source: one call of a function whose only argument is the
description, with whole lines of comment allowed anywhere. The payload runs from the first
opening to the last closing parenthesis.
-/

namespace GrammarView.Source

/-- The text without its comment lines. A comment line holds blanks and two slashes before
anything else, and it is taken out together with the blank lines right before it. -/
def stripComments (atLineStart : Bool) (characters : List Char) : List Char :=
  match characters with
  | [] => []
  | character :: rest =>
    if atLineStart then
      match _dropped : dropBlanks (character :: rest) with
      | '/' :: '/' :: comment => stripComments true (afterFirstLine comment)
      | _ => character :: stripComments (character = '\n') rest
    else character :: stripComments (character = '\n') rest
termination_by characters.length
decreasing_by
  · have shorter := length_dropBlanks_le (character :: rest)
    have shortest := length_afterFirstLine_le comment
    rw [_dropped] at shorter
    simp only [List.length_cons] at shorter ⊢
    omega
  · simp
  · simp

/-- Whether a name may begin with a character. -/
def beginsName (character : Char) : Bool :=
  character.isAlpha || character == '_' || character == '$'

/-- Whether a name may go on with a character. -/
def continuesName (character : Char) : Bool :=
  isWord character || character == '$' || character == '.'

/-- What follows the opening parenthesis of a call. -/
def afterOpening? (characters : List Char) : Option (List Char) :=
  match dropBlanks characters with
  | [] => none
  | character :: rest =>
    if beginsName character then
      match dropBlanks (rest.dropWhile continuesName) with
      | '(' :: argument => some argument
      | _ => none
    else none

/-- What stands before the last closing parenthesis, when only blanks and at most one semicolon
follow it. -/
def beforeClosing? (characters : List Char) : Option (List Char) :=
  let reversed :=
    match dropBlanks characters.reverse with
    | ';' :: rest => dropBlanks rest
    | rest => rest
  match reversed with
  | ')' :: argument => some argument.reverse
  | _ => none

/-- The payload of a text that is one call. -/
def payload? (characters : List Char) : Option (List Char) :=
  (afterOpening? characters).bind beforeClosing?

/-- Reads a source from a text that is one call, its comment lines left out. -/
def readCall (characters : List Char) : Except Fault Source :=
  match payload? (stripComments true characters) with
  | some payload => readJson payload
  | none => .error .notCall

end GrammarView.Source
