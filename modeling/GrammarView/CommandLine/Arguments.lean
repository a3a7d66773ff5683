import GrammarView.Decimal.Numeral

/-!
# Arguments

The arguments of the command line. Options may stand anywhere before a double hyphen; a short
option may be followed at once by its value or by further short options, a long one by an equals
sign and its value. The last value of an option counts, and there is at most one other argument.
-/

namespace GrammarView.CommandLine

/-- The options that take a value. -/
inductive Setting where
  | target
  | scale
  | output
  deriving DecidableEq, Repr

/-- The options that take none. -/
inductive Switch where
  | expanded
  | annotate
  | verbose
  deriving DecidableEq, Repr

/-- An option. -/
inductive Choice where
  | setting (setting : Setting)
  | switch (switch : Switch)
  deriving DecidableEq, Repr

/-- The option of a long name. -/
def long? : String → Option Choice
  | "--target" => some (.setting .target)
  | "--scale" => some (.setting .scale)
  | "--output" => some (.setting .output)
  | "--expanded" => some (.switch .expanded)
  | "--annotate" => some (.switch .annotate)
  | "--verbose" => some (.switch .verbose)
  | _ => none

/-- The option of a letter. -/
def short? : Char → Option Choice
  | 't' => some (.setting .target)
  | 's' => some (.setting .scale)
  | 'o' => some (.setting .output)
  | 'v' => some (.switch .verbose)
  | _ => none

/-- What the arguments say, before values are read. -/
structure Given where
  target : String
  scale : Option String
  output : Option String
  expanded : Bool
  annotate : Bool
  verbose : Bool
  /-- The arguments that are no options. -/
  others : List String
  deriving Repr

/-- What no arguments say: all rules are drawn. -/
def Given.none : Given :=
  ⟨"railroad", .none, .none, false, false, false, []⟩

/-- Notes the value of an option. -/
def Given.set (given : Given) (value : String) : Setting → Given
  | .target => { given with target := value }
  | .scale => { given with scale := some value }
  | .output => { given with output := some value }

/-- Notes an option without value. -/
def Given.switchOn (given : Given) : Switch → Given
  | .expanded => { given with expanded := true }
  | .annotate => { given with annotate := true }
  | .verbose => { given with verbose := true }

/-- Notes an argument that is no option. -/
def Given.other (given : Given) (argument : String) : Given :=
  { given with others := given.others ++ [argument] }

/-- What one argument asks for: it is complete, or its option takes the next argument as its
value. -/
inductive Step where
  | complete (given : Given)
  | needsValue (given : Given) (setting : Setting)

/-- Reads short options one by one. -/
def readShort (given : Given) : List Char → Option Step
  | [] => some (.complete given)
  | letter :: rest =>
    match short? letter with
    | none => none
    | some (.switch switch) => readShort (given.switchOn switch) rest
    | some (.setting setting) =>
      if rest.isEmpty then some (.needsValue given setting)
      else some (.complete (given.set (String.ofList rest) setting))

/-- Reads a long option with the value that follows its equals sign, if any. -/
def readLong (given : Given) (name : String) (value : Option String) : Option Step :=
  match long? name, value with
  | some (.switch switch), .none => some (.complete (given.switchOn switch))
  | some (.setting setting), .none => some (.needsValue given setting)
  | some (.setting setting), some value => some (.complete (given.set value setting))
  | _, _ => none

/-- The value after the first equals sign of an option. -/
def valuePart (characters : List Char) : Option String :=
  match characters.dropWhile (· ≠ '=') with
  | _ :: rest => some (String.ofList rest)
  | [] => none

/-- Reads one argument, none when it is not understood. -/
def readArgument (given : Given) (argument : String) : Option Step :=
  match argument.toList with
  | '-' :: '-' :: rest =>
    readLong given (String.ofList ('-' :: '-' :: rest.takeWhile (· ≠ '='))) (valuePart rest)
  | '-' :: first :: rest => readShort given (first :: rest)
  | _ => some (.complete (given.other argument))

/-- Reads arguments one after the other, none when they are not understood. -/
def readArguments (given : Given) : List String → Option Given
  | [] => some given
  | argument :: rest =>
    if argument = "--" then some { given with others := given.others ++ rest }
    else
      match readArgument given argument, rest with
      | none, _ => none
      | some (.complete given), rest => readArguments given rest
      | some (.needsValue given setting), value :: rest =>
        readArguments (given.set value setting) rest
      | some (.needsValue _ _), [] => none

/-- What the command line is asked to do. -/
structure Request where
  /-- The files of grammars, of which there may be at most one. -/
  grammars : List String
  target : String
  scale : Option Float
  collapsed : Bool
  annotated : Bool
  output : Option String

/-- The scale that is given, if any; none when it is no number. -/
def Given.readScale (given : Given) : Option (Option Float) :=
  match given.scale with
  | some text => (Decimal.read? text.toList).map some
  | .none => some .none

/-- The request that arguments make, none when they are not understood. -/
def request? (arguments : List String) : Option Request := do
  let given ← readArguments Given.none arguments
  let scale ← given.readScale
  return {
    grammars := given.others
    target := given.target
    scale
    collapsed := !given.expanded
    annotated := given.annotate
    output := given.output }

end GrammarView.CommandLine
