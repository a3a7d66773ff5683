import GrammarView.Source.Call
import GrammarView.Text.Utf8

/-!
# Formats of a grammar source

Which of its two forms a text is written in. The first line that is neither blank nor a comment
decides: an opening brace makes it plain JSON, anything else a call.
-/

namespace GrammarView.Source

/-- The forms of a grammar source. -/
inductive Format where
  | json
  | call
  deriving DecidableEq, Repr

/-- The name of a form. -/
def Format.name : Format → String
  | .json => "json"
  | .call => "jsonp"

/-- Whether a line without its blanks says anything about the form. -/
def isTelling : List Char → Bool
  | [] => false
  | '/' :: '/' :: _ => false
  | _ => true

/-- The form of a text. -/
def detect (characters : List Char) : Format :=
  match ((linesOf (trimBlanks characters)).map trimBlanks).find? isTelling with
  | some ('\x7b' :: _) => .json
  | some _ => .call
  | none => .json

/-- Reads a source from a text of a given form. -/
def readAs : Format → List Char → Except Fault Source
  | .json => readJson
  | .call => readCall

/-- Reads a source from a text in whichever form it is written. -/
def read (characters : List Char) : Except Fault Source :=
  readAs (detect characters) characters

/-- The reasons for which a file holds no grammar source. -/
inductive FileFault where
  | encoding (fault : Utf8.Fault)
  | grammar (fault : Fault)
  deriving DecidableEq, Repr

/-- The words for a reason. -/
def FileFault.message : FileFault → String
  | .encoding fault => fault.message
  | .grammar fault => fault.message

/-- Reads a source from the bytes of a file. -/
def ofBytes (bytes : List UInt8) : Except FileFault Source :=
  match Utf8.readText bytes with
  | .error fault => .error (.encoding fault)
  | .ok characters =>
    match read characters with
    | .error fault => .error (.grammar fault)
    | .ok source => .ok source

end GrammarView.Source
