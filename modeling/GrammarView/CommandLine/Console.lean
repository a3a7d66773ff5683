import GrammarView.CommandLine.Arguments
import GrammarView.Text.Terminal

/-!
# Consoles

Where a command line is run: the toolkit on which it is built, and whether its streams are terminals.
From the toolkit it takes how arguments are understood and how texts are printed. The usual toolkit
understands arguments as they are described with them, and lets control sequences through to terminals
only.
-/

namespace GrammarView.CommandLine

/-- A toolkit for command lines. -/
structure Toolkit where
  /-- The request that arguments make, none when they are not understood. -/
  request? : List String → Option Request
  /-- What a stream receives when a text is printed on it. The flag tells whether it is a
  terminal. -/
  echo : Bool → String → String

/-- A text as it is printed: on a line of its own, and with its control sequences only on a
terminal. -/
def printed (terminal : Bool) (content : String) : String :=
  if terminal then content ++ "\n" else String.ofList (dropControls content.toList ++ ['\n'])

/-- The usual toolkit. -/
def Toolkit.usual : Toolkit where
  request? := CommandLine.request?
  echo := printed

/-- A toolkit, and which streams are terminals. -/
structure Console where
  toolkit : Toolkit
  outputIsTerminal : Bool
  errorsAreTerminal : Bool

namespace Console

/-- The usual toolkit where neither stream is a terminal. -/
def redirected : Console where
  toolkit := Toolkit.usual
  outputIsTerminal := false
  errorsAreTerminal := false

/-- What is printed of a text. -/
def print (console : Console) (content : String) : String :=
  console.toolkit.echo console.outputIsTerminal content

/-- What is printed of a complaint. -/
def complain (console : Console) (content : String) : String :=
  console.toolkit.echo console.errorsAreTerminal content

end Console

end GrammarView.CommandLine
