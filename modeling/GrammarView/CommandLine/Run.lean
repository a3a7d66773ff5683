import GrammarView.CommandLine.Console
import GrammarView.CommandLine.Files
import GrammarView.Source.Format
import GrammarView.View

/-!
# Running the command line

One run: understand the arguments, read the grammar, make the view, and print it or put it into a
file. Whatever can be wrong with the arguments, the grammar or the view ends the run before the file
is opened, so files change only on success, unless a text cannot be put into a file that has been
opened. A run breaks down over a margin that is too large for any diagram and over a path that no file
can have; nothing is written then either.
-/

namespace GrammarView.CommandLine

/-- The reasons for which a run breaks down. -/
inductive Breakdown where
  /-- The view cannot be made. -/
  | view (failure : View.Failure)
  /-- A path holds the character that no path can hold. -/
  | nulInPath
  deriving DecidableEq, Repr

/-- The words for a breakdown. -/
def Breakdown.message : Breakdown → String
  | .view (.missingHue missing) => missing.category
  | .view .marginTooLarge => "int too large to convert to float"
  | .nulInPath => "embedded null byte"

/-- What a run leaves: its exit code, what it printed on either stream, and the breakdown that
ended it, if one did. -/
structure Outcome where
  exitCode : Nat
  output : String
  errors : String
  breakdown : Option Breakdown
  deriving DecidableEq, Repr

/-- A run that failed with a complaint, after the given reports. -/
def Console.failed (console : Console) (reports complaint : String) : Outcome :=
  ⟨1, "", reports ++ console.complain complaint, none⟩

/-- A run that broke down, after the given reports. -/
def Console.broken (console : Console) (reports : String) (breakdown : Breakdown) : Outcome :=
  ⟨1, "", reports ++ console.complain breakdown.message, some breakdown⟩

/-- A run whose arguments were not understood. -/
def Console.misused (console : Console) : Outcome :=
  ⟨2, "", console.complain ("usage: [--target NAME] [--scale NUMBER] [--expanded] [--annotate]"
    ++ " [--output FILE] [--verbose] [GRAMMAR]"), none⟩

/-- Reports as lines, each with its level. -/
def reportLines (notices : List Notice) : String :=
  String.join (notices.map fun notice => notice.level ++ ": " ++ notice.message ++ "\n")

/-- How views are made on request. -/
def Request.config (request : Request) : View.Config :=
  { theme := Theme.standard
    scale := request.scale
    collapsed := request.collapsed
    annotated := request.annotated }

namespace Console

variable {m : Type → Type} [Monad m] (console : Console)

/-- The source that a file holds, or the failed run. -/
def readSource (files : Files m) (path : String) : m (Except Outcome Source) := do
  match ← files.read path with
  | .error fault =>
    pure (.error (console.failed "" ("error: cannot read '" ++ path ++ "': "
      ++ fault.message (tidyPath path))))
  | .ok bytes =>
    match Source.ofBytes bytes with
    | .ok source => pure (.ok source)
    | .error fault => pure (.error (console.failed "" ("parse error:\n" ++ fault.message)))

/-- The source that is shown, or the failed run. The first file must be there even where a second
one is too many. -/
def loadSource (files : Files m) : List String → m (Except Outcome Source)
  | [] => pure (.ok Bundled.source)
  | path :: surplus => do
    if holdsNul path then pure (.error (console.broken "" .nulInPath))
    else if (← files.isPresent path) && surplus.isEmpty then console.readSource files path
    else pure (.error console.misused)

/-- Puts a view into a file. The file is opened first, and that takes away what it held. -/
def store (files : Files m) (path reports text : String) : m Outcome := do
  match ← files.create path with
  | .error fault =>
    pure (console.failed reports
      ("error: cannot write '" ++ path ++ "': " ++ fault.message path))
  | .ok handle =>
    match ← files.put handle text with
    | .error fault =>
      pure (console.failed reports ("error: cannot write '" ++ path ++ "': " ++ fault.brief))
    | .ok () => pure ⟨0, "", reports, none⟩

/-- Prints a view, or puts it into the file that is asked for. -/
def deliver (files : Files m) (output : Option String) (reports text : String) : m Outcome :=
  match output with
  | none | some "" => pure ⟨0, console.print text, reports, none⟩
  | some path =>
    if holdsNul path then pure (console.broken reports .nulInPath)
    else console.store files path reports text

/-- Carries out a request. -/
def carryOut (files : Files m) (request : Request) : m Outcome := do
  match ← console.loadSource files request.grammars with
  | .error outcome => pure outcome
  | .ok source =>
    match View.named request.target source request.config with
    | .error failure => pure (console.broken "" (.view failure))
    | .ok view =>
      let reports := reportLines view.notices
      if view.text = "" then
        pure (console.failed reports
          ("error: nothing rendered for target '" ++ request.target ++ "'"))
      else console.deliver files request.output reports view.text

/-- Runs the command line on arguments. -/
def run (files : Files m) (arguments : List String) : m Outcome :=
  match console.toolkit.request? arguments with
  | none => pure console.misused
  | some request => console.carryOut files request

end Console

/-- Runs the command line on arguments where neither stream is a terminal. -/
def run {m : Type → Type} [Monad m] (files : Files m) (arguments : List String) : m Outcome :=
  Console.redirected.run files arguments

end GrammarView.CommandLine
