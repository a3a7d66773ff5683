import GrammarView.Text.Quoted

/-!
# Files

What the command line needs of a file system: whether a path leads to something, reading a file, and
writing one in two steps. To open a file for writing takes away what it held, and only then is a text
put into it. The operations are given in any monad, so that the same program runs on a real file
system and on a tree of files that is only a value.
-/

namespace GrammarView.CommandLine

/-- The reasons for which a file cannot be read or written. -/
inductive FileFault where
  | missing
  | notDirectory
  | isDirectory
  | nameTooLong
  /-- Any other reason, by its number and its words. -/
  | other (number : Nat) (words : String)
  deriving DecidableEq, Repr

namespace FileFault

/-- The number of a reason. -/
def number : FileFault → Nat
  | .missing => 2
  | .notDirectory => 20
  | .isDirectory => 21
  | .nameTooLong => 36
  | .other number _ => number

/-- The words for a reason. -/
def words : FileFault → String
  | .missing => "No such file or directory"
  | .notDirectory => "Not a directory"
  | .isDirectory => "Is a directory"
  | .nameTooLong => "File name too long"
  | .other _ words => words

/-- The report of a reason. -/
def brief (fault : FileFault) : String :=
  "[Errno " ++ toString fault.number ++ "] " ++ fault.words

/-- The report of a reason with the path it concerns. -/
def message (fault : FileFault) (path : String) : String :=
  fault.brief ++ ": " ++ Quoted.quoted path

end FileFault

/-- The operations on files. -/
structure Files (m : Type → Type) where
  /-- Files that have been opened for writing. -/
  Handle : Type
  /-- Whether a path leads to a file or a directory. -/
  isPresent : String → m Bool
  /-- The bytes of a file. -/
  read : String → m (Except FileFault (List UInt8))
  /-- Opens a file for writing. One that is there loses what it holds, any other is made. -/
  create : String → m (Except FileFault Handle)
  /-- Puts a text into a file that has just been opened, and closes it. -/
  put : Handle → String → m (Except FileFault Unit)

/-- The parts of a path between its slashes. -/
def pathParts (path : String) : List String :=
  (path.toList.splitOn '/').map String.ofList

/-- Whether a path begins at the top of the file system. -/
def isRooted (path : String) : Bool :=
  path.toList.head? == some '/'

/-- The slashes at the beginning of a path that count: two are kept as two, and any other number
stands for one. -/
def leadingSlashes (path : String) : String :=
  match (path.toList.takeWhile (· == '/')).length with
  | 0 => ""
  | 2 => "//"
  | _ => "/"

/-- A path without the parts that lead nowhere. -/
def tidyPath (path : String) : String :=
  let parts := (pathParts path).filter fun part => part != "" && part != "."
  let tidy := leadingSlashes path ++ "/".intercalate parts
  if tidy = "" then "." else tidy

/-- Whether a path holds the character that no path can hold. -/
def holdsNul (path : String) : Bool :=
  path.toList.contains (Char.ofNat 0)

end GrammarView.CommandLine
