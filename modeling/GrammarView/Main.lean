import GrammarView.CommandLine.Run

/-!
# The program

Runs the command line on the file system and the streams of the process.
-/

namespace GrammarView.CommandLine

/-- The fault that an error of the file system stands for. -/
def faultOf : IO.Error → FileFault
  | .noFileOrDirectory .. => .missing
  | .inappropriateType _ 20 _ => .notDirectory
  | .inappropriateType _ 21 _ => .isDirectory
  | .invalidArgument _ 36 _ => .nameTooLong
  | error => .other 5 (toString error)

/-- Does something with a file and catches the fault. -/
def attempt {α : Type} (action : IO α) : IO (Except FileFault α) := do
  try
    return .ok (← action)
  catch error =>
    return .error (faultOf error)

/-- The operations on the file system of the process. -/
def systemFiles : Files IO where
  Handle := IO.FS.Handle
  isPresent path := do
    return (← attempt (IO.FS.Handle.mk path .read)).isOk
  read path := attempt (do return (← IO.FS.readBinFile path).toList)
  create path := attempt (IO.FS.Handle.mk path .write)
  put handle content := attempt (do
    handle.putStr content
    handle.flush)

/-- The usual toolkit with the streams of the process. -/
def systemConsole : IO Console := do
  return {
    toolkit := Toolkit.usual
    outputIsTerminal := ← (← IO.getStdout).isTty
    errorsAreTerminal := ← (← IO.getStderr).isTty }

end GrammarView.CommandLine

open GrammarView.CommandLine in
/-- Runs the program. -/
def main (arguments : List String) : IO UInt32 := do
  let outcome ← (← systemConsole).run systemFiles arguments
  IO.print outcome.output
  IO.eprint outcome.errors
  return UInt32.ofNat outcome.exitCode
