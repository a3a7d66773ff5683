import GrammarView.CommandLine.Console
import Mathlib.Data.List.Basic

/-!
# Consoles

What a run may rely on in the toolkit of the command line: how texts are printed on a terminal and
elsewhere, and where the path of the output comes from. The usual toolkit does what is said here.
-/

namespace GrammarView

/-- Only an escape begins a control sequence. -/
theorem afterControl?_of_ne {character : Char} (other : character ≠ '\x1b') (rest : List Char) :
    afterControl? (character :: rest) = none := by
  unfold afterControl?
  split
  case h_1 same => exact absurd (List.cons.inj same).1 other
  case h_2 => rfl

/-- A text without escapes holds no control sequence. -/
theorem dropControls_of_not_mem {characters : List Char} (free : '\x1b' ∉ characters) :
    dropControls characters = characters := by
  induction characters with
  | nil => rw [dropControls]
  | cons character rest inductionHypothesis =>
    obtain ⟨other, others⟩ := not_or.mp (mt List.mem_cons.mpr free)
    rw [dropControls]
    split
    case h_1 found =>
      rw [afterControl?_of_ne (Ne.symm other)] at found
      contradiction
    case h_2 => rw [inductionHypothesis others]

namespace CommandLine

/-- Whether an argument may name the option for the output: as a long option, or by its letter
behind a single hyphen. -/
def mentionsOutput (argument : String) : Bool :=
  match argument.toList with
  | '-' :: '-' :: rest => "output".toList.isPrefixOf rest
  | '-' :: letters => letters.contains 'o'
  | _ => false

/-- What a toolkit documents of printing and of the option for the output. -/
structure Toolkit.Documented (toolkit : Toolkit) : Prop where
  /-- On a terminal a text is printed as it is, on a line of its own. -/
  terminal : ∀ text, toolkit.echo true text = text ++ "\n"
  /-- Elsewhere its control sequences are left out. -/
  plain : ∀ text, toolkit.echo false text = String.ofList (dropControls text.toList) ++ "\n"
  /-- An option that is not named has no value. -/
  noOutput : ∀ {arguments request}, toolkit.request? arguments = some request →
    (∀ argument ∈ arguments, mentionsOutput argument = false) → request.output = none
  /-- Of several values of an option the last one counts. -/
  lastOutput : ∀ {arguments request} (path : String), "--" ∉ arguments →
    toolkit.request? arguments = some request →
    toolkit.request? (arguments ++ ["--output", path]) = some { request with output := some path }

section Reading

variable {given final : Given} {argument : String} {arguments more : List String}

/-- What an argument that does not name the option for the output asks for: it leaves the output
as it is given, and so does the value that it may need. -/
inductive Step.Spares (given : Given) : Step → Prop where
  | complete {next} (same : next.output = given.output) : Spares given (.complete next)
  | needsValue {next setting} (same : next.output = given.output) (other : setting ≠ .output) :
      Spares given (.needsValue next setting)

/-- A value of another option leaves the output as it is given. -/
theorem output_set {setting : Setting} (other : setting ≠ .output) (value : String) :
    (given.set value setting).output = given.output := by
  cases setting with
  | output => contradiction
  | _ => rfl

/-- An option without value leaves the output as it is given. -/
theorem output_switchOn (switch : Switch) : (given.switchOn switch).output = given.output := by
  cases switch <;> rfl

/-- Letters among which the one of the output is not leave it as it is given. -/
theorem spares_of_readShort {letters : List Char} {step : Step} (free : 'o' ∉ letters)
    (read : readShort given letters = some step) : step.Spares given := by
  induction letters generalizing given with
  | nil =>
    cases read
    exact .complete rfl
  | cons letter rest inductionHypothesis =>
    obtain ⟨different, others⟩ := not_or.mp (mt List.mem_cons.mpr free)
    rw [readShort] at read
    cases named : short? letter with
    | none =>
      rw [named] at read
      contradiction
    | some choice =>
      rw [named] at read
      cases choice with
      | switch switch =>
        have spares := inductionHypothesis others read
        cases spares with
        | complete same => exact .complete (same.trans (output_switchOn switch))
        | needsValue same other => exact .needsValue (same.trans (output_switchOn switch)) other
      | setting setting =>
        have other : setting ≠ .output := by
          rintro rfl
          unfold short? at named
          split at named <;> simp_all
        dsimp only at read
        split at read
        · cases read
          exact .needsValue rfl other
        · cases read
          exact .complete (output_set other _)

/-- A long option other than that of the output leaves it as it is given. -/
theorem spares_of_readLong {name : String} {value : Option String} {step : Step}
    (different : name ≠ "--output") (read : readLong given name value = some step) :
    step.Spares given := by
  have other {setting : Setting} (named : long? name = some (.setting setting)) :
      setting ≠ .output := by
    rintro rfl
    unfold long? at named
    split at named <;> simp_all
  unfold readLong at read
  split at read
  case h_1 switch _ =>
    cases read
    exact .complete (output_switchOn switch)
  case h_2 named =>
    cases read
    exact .needsValue rfl (other named)
  case h_3 value named =>
    cases read
    exact .complete (output_set (other named) value)
  case h_4 => contradiction

/-- An argument that does not name the option for the output leaves it as it is given. -/
theorem spares_of_readArgument {step : Step} (silent : mentionsOutput argument = false)
    (read : readArgument given argument = some step) : step.Spares given := by
  unfold readArgument at read
  split at read
  case h_1 rest characters =>
    refine spares_of_readLong (fun same => ?_) read
    have name : rest.takeWhile (· ≠ '=') = "output".toList := by
      simpa using congrArg String.toList same
    have begins : "output".toList <+: rest := name ▸ List.takeWhile_prefix _
    have mentions : mentionsOutput argument = true := by
      simp only [mentionsOutput, characters]
      exact List.isPrefixOf_iff_prefix.mpr begins
    exact absurd mentions (Bool.eq_false_iff.mp silent)
  case h_2 first rest single characters =>
    have different : first ≠ '-' := by
      rintro rfl
      exact single rfl
    refine spares_of_readShort (fun member => ?_) read
    have mentions : mentionsOutput argument = true := by
      simpa [mentionsOutput, characters, different] using member
    exact absurd mentions (Bool.eq_false_iff.mp silent)
  case h_3 =>
    cases read
    exact .complete rfl

/-- Arguments that do not name the option for the output leave it as it is given. -/
theorem output_of_readArguments (silent : ∀ argument ∈ arguments, mentionsOutput argument = false)
    (read : readArguments given arguments = some final) : final.output = given.output := by
  fun_induction readArguments given arguments with
  | case1 => cases read; rfl
  | case2 => cases read; rfl
  | case3 => contradiction
  | case4 given argument separate next rest asked inductionHypothesis =>
    obtain ⟨first, others⟩ := List.forall_mem_cons.mp silent
    cases spares_of_readArgument first asked with
    | complete same => exact (inductionHypothesis others read).trans same
  | case5 given argument separate next setting value rest asked inductionHypothesis =>
    obtain ⟨first, others⟩ := List.forall_mem_cons.mp silent
    cases spares_of_readArgument first asked with
    | needsValue same other =>
      have remaining := (List.forall_mem_cons.mp others).2
      rw [inductionHypothesis remaining read, output_set other, same]
  | case6 => contradiction

/-- Arguments are read one after the other as long as no double hyphen ends the options. -/
theorem readArguments_append (separate : "--" ∉ arguments)
    (read : readArguments given arguments = some final) :
    readArguments given (arguments ++ more) = readArguments final more := by
  fun_induction readArguments given arguments with
  | case1 => cases read; rfl
  | case2 => simp at separate
  | case3 => contradiction
  | case4 given argument apart next rest asked inductionHypothesis =>
    obtain ⟨-, others⟩ := not_or.mp (mt List.mem_cons.mpr separate)
    rw [List.cons_append, readArguments.eq_def]
    simp only [if_neg apart, asked]
    exact inductionHypothesis others read
  | case5 given argument apart next setting value rest asked inductionHypothesis =>
    simp only [List.mem_cons, not_or] at separate
    rw [List.cons_append, List.cons_append, readArguments.eq_def]
    simp only [if_neg apart, asked]
    exact inductionHypothesis separate.2.2 read
  | case6 => contradiction

end Reading

/-- The usual toolkit does what is documented. -/
theorem documented_usual : Toolkit.usual.Documented where
  terminal _ := rfl
  plain text := by
    change String.ofList (dropControls text.toList ++ ['\n']) = _
    rw [String.ofList_append]
  noOutput {arguments request} asked silent := by
    obtain ⟨given, read, asked⟩ := Option.bind_eq_some_iff.mp asked
    obtain ⟨scale, -, made⟩ := Option.bind_eq_some_iff.mp asked
    cases made
    exact output_of_readArguments silent read
  lastOutput {arguments request} path separate asked := by
    obtain ⟨given, read, asked⟩ := Option.bind_eq_some_iff.mp asked
    obtain ⟨scale, known, made⟩ := Option.bind_eq_some_iff.mp asked
    cases made
    have last : readArguments given ["--output", path] = some (given.set path .output) := rfl
    change CommandLine.request? (arguments ++ ["--output", path]) = _
    rw [CommandLine.request?, readArguments_append separate read, last]
    refine Option.bind_eq_some_iff.mpr ⟨_, rfl, ?_⟩
    exact Option.bind_eq_some_iff.mpr ⟨scale, known, rfl⟩

/-- A text as it is to be printed: as it is on a terminal, elsewhere without its control sequences,
and with nothing else left out. -/
structure Prints (terminal : Bool) (text output : String) : Prop where
  whole : terminal = true ∨ '\x1b' ∉ text.toList → output = text ++ "\n"
  cleared : terminal = false → output = String.ofList (dropControls text.toList) ++ "\n"

/-- Every text is printed as it is to be printed. -/
theorem Console.prints_print {console : Console} (documented : console.toolkit.Documented)
    (text : String) : Prints console.outputIsTerminal text (console.print text) := by
  unfold print
  cases console.outputIsTerminal with
  | true => exact ⟨fun _ => documented.terminal text, nofun⟩
  | false =>
    refine ⟨fun free => ?_, fun _ => documented.plain text⟩
    have noEscape := free.resolve_left Bool.false_ne_true
    rw [documented.plain, dropControls_of_not_mem noEscape, String.ofList_toList]

end CommandLine

end GrammarView
