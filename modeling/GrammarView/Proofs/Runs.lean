import GrammarView.CommandLine.Run
import GrammarView.Proofs.Consoles
import GrammarView.Proofs.FileSystems
import GrammarView.Proofs.JsonStrings
import Mathlib

/-!
# Runs of the command line

What a run leaves behind. Whatever the arguments are and whatever the file system holds, a run
that fails prints nothing on its output and leaves every file as it was. A run that succeeds has a
view to show, and either prints it or puts it into the one file that was asked for. Nothing is said of
writing that fails midway, and nothing of grammars that spell half a surrogate pair, which no text
can hold.
-/

namespace GrammarView.CommandLine

/-- Whether an outcome is that of a run that failed. -/
structure Outcome.Fails (outcome : Outcome) : Prop where
  exitCode : outcome.exitCode ≠ 0
  silent : outcome.output = ""

namespace Console

variable (console : Console)

theorem misused_fails : console.misused.Fails :=
  ⟨by simp [misused], rfl⟩

theorem failed_fails (reports complaint : String) : (console.failed reports complaint).Fails :=
  ⟨by simp [failed], rfl⟩

theorem broken_fails (reports : String) (breakdown : Breakdown) :
    (console.broken reports breakdown).Fails :=
  ⟨by simp [broken], rfl⟩

end Console

/-- Whether no escape of half a surrogate pair stands alone in the text that bytes encode. -/
def SpellsWhole (bytes : List UInt8) : Prop :=
  ∀ characters, Utf8.readText bytes = .ok characters → Json.escapesHalf characters = false

namespace FileSystem

variable (system : FileSystem) (console : Console)

/-- A run on a file system: its outcome, and what it leaves. -/
def run (arguments : List String) (before : system.State) : Outcome × system.State :=
  console.run system.files arguments before

/-- The sources that are loaded: the one that is at hand, or the one that a file holds. -/
inductive Loads (state : system.State) : List String → Source → Prop where
  | bundled : Loads state [] Bundled.source
  | file {path bytes source} (legal : holdsNul path = false)
      (holds : system.Holds state path bytes) (whole : SpellsWhole bytes)
      (reads : Source.ofBytes bytes = .ok source) : Loads state [path] source

/-- How a text is shown: printed, which leaves all files as they were, or put into a file, which
prints nothing. -/
inductive Delivers (before : system.State) (text : String) :
    Option String → String → system.State → Prop where
  | printed {destination output} (nowhere : destination = none ∨ destination = some "")
      (prints : Prints console.outputIsTerminal text output) :
      Delivers before text destination output before
  | written {path after} (named : path ≠ "") (puts : system.Puts before path text after) :
      Delivers before text (some path) "" after

/-- Whether a text can be shown in the way that is asked for. -/
def Takes (state : system.State) : Option String → Prop
  | none => True
  | some path => path = ""
      ∨ holdsNul path = false ∧ ∃ handle, (system.files.create path state).1 = .ok handle

/-- How a request is met: a source is loaded, its view is made and has something to show, and
that is shown. -/
def Meets (before : system.State) (request : Request) (output : String) (after : system.State) :
    Prop :=
  ∃ source view, system.Loads before request.grammars source
    ∧ View.named request.target source request.config = .ok view ∧ view.text ≠ ""
    ∧ system.Delivers console before view.text request.output output after

/-- Whether the files that a request names spell no half of a surrogate pair alone. -/
def HoldsWhole (state : system.State) (paths : List String) : Prop :=
  ∀ path ∈ paths, ∀ bytes, system.Holds state path bytes → SpellsWhole bytes

/-- The ends of loading a source, neither of which changes anything. -/
inductive LoadEnds (state : system.State) (paths : List String) :
    Except Outcome Source × system.State → Prop where
  | failure {outcome} (fails : outcome.Fails) : LoadEnds state paths (.error outcome, state)
  | source {source} (loads : system.Loads state paths source) :
      LoadEnds state paths (.ok source, state)

/-- The ends of what may be shown: a failure that changes nothing, or a success. -/
inductive Ends (before : system.State) (shown : String → system.State → Prop) :
    Outcome × system.State → Prop where
  | failure {outcome} (fails : outcome.Fails) : Ends before shown (outcome, before)
  | success {outcome after} (succeeds : outcome.exitCode = 0) (shows : shown outcome.output after) :
      Ends before shown (outcome, after)

section Ending

variable {system} {before : system.State} {shown known : String → system.State → Prop}
  {result : Outcome × system.State}

/-- What is known of everything that is shown is known of it at the end. -/
theorem Ends.imp (ends : system.Ends before shown result)
    (follows : ∀ output after, shown output after → known output after) :
    system.Ends before known result := by
  cases ends with
  | failure fails => exact .failure fails
  | success succeeds shows => exact .success succeeds (follows _ _ shows)

/-- Where the exit code is not zero nothing is changed or printed. -/
theorem Ends.keeps (ends : system.Ends before shown result) (nonzero : result.1.exitCode ≠ 0) :
    result.2 = before ∧ result.1.output = "" := by
  cases ends with
  | failure fails => exact ⟨rfl, fails.silent⟩
  | success succeeds => exact absurd succeeds nonzero

/-- Where the exit code is zero something is shown. -/
theorem Ends.shows (ends : system.Ends before shown result) (zero : result.1.exitCode = 0) :
    shown result.1.output result.2 := by
  cases ends with
  | failure fails => exact absurd zero fails.exitCode
  | success _ shows => exact shows

end Ending

/-- One action after another in a state. -/
theorem bind_apply {State α β : Type} (action : StateM State α) (next : α → StateM State β)
    (state : State) : (action >>= next) state = next (action state).1 (action state).2 :=
  rfl

/-- Reading a source fails or gives the source that the file holds. -/
theorem readSource_ends {path : String} (legal : holdsNul path = false) {state : system.State}
    (whole : system.HoldsWhole state [path]) :
    system.LoadEnds state [path] (console.readSource system.files path state) := by
  rw [Console.readSource, bind_apply, system.read_keeps]
  cases read : (system.files.read path state).1 with
  | error fault => exact .failure (console.failed_fails _ _)
  | ok bytes =>
    dsimp only
    cases reads : Source.ofBytes bytes with
    | error fault => exact .failure (console.failed_fails _ _)
    | ok source =>
      have holds := system.read_iff.mp read
      exact .source (.file legal holds (whole path (.head _) bytes holds) reads)

/-- Loading a source fails or gives the source that is asked for. -/
theorem loadSource_ends {paths : List String} {state : system.State}
    (whole : system.HoldsWhole state paths) :
    system.LoadEnds state paths (console.loadSource system.files paths state) := by
  cases paths with
  | nil => exact .source .bundled
  | cons path surplus =>
    rw [Console.loadSource]
    split
    case isTrue => exact .failure (console.broken_fails _ _)
    case isFalse legal =>
      rw [bind_apply, system.isPresent_keeps]
      split
      case isTrue found =>
        obtain rfl := List.isEmpty_iff.mp (Bool.and_eq_true_iff.mp found).2
        exact system.readSource_ends console (Bool.eq_false_iff.mpr legal) whole
      case isFalse => exact .failure console.misused_fails

/-- A source that can be loaded is loaded. -/
theorem loadSource_of_loads {paths : List String} {state : system.State} {source : Source}
    (loads : system.Loads state paths source) :
    console.loadSource system.files paths state = (.ok source, state) := by
  cases loads with
  | bundled => rfl
  | @file path bytes _ legal holds _ reads =>
    have present :
        ((system.files.isPresent path state).1 && ([] : List String).isEmpty) = true := by
      rw [system.isPresent_of_holds holds]
      rfl
    rw [Console.loadSource, if_neg (Bool.eq_false_iff.mp legal), bind_apply, if_pos present,
      system.isPresent_keeps, Console.readSource, bind_apply, system.read_iff.mpr holds,
      system.read_keeps]
    dsimp only
    rw [reads]
    rfl

section Delivering

variable {system console} {state : system.State} {destination : Option String}
  {reports text : String}

/-- A text that is put into a file stands there alone, or nothing is changed. -/
theorem store_ends (steady : system.Steady) {path : String} (named : path ≠ "") :
    system.Ends state (system.Delivers console state text (some path))
      (console.store system.files path reports text state) := by
  rw [Console.store, bind_apply]
  cases created : (system.files.create path state).1 with
  | error fault =>
    rw [system.create_keeps created]
    exact .failure (console.failed_fails _ _)
  | ok handle =>
    have stored : (system.files.put handle text (system.files.create path state).2).1 = .ok () :=
      steady created
    dsimp only
    rw [bind_apply, stored]
    exact .success rfl (.written named (system.puts_of_put created stored))

/-- A text is shown in the way that is asked for, or nothing is changed. -/
theorem deliver_ends (documented : console.toolkit.Documented) (steady : system.Steady) :
    system.Ends state (system.Delivers console state text destination)
      (console.deliver system.files destination reports text state) := by
  have prints := Console.prints_print documented text
  unfold Console.deliver
  split
  case h_1 => exact .success rfl (.printed (.inl rfl) prints)
  case h_2 => exact .success rfl (.printed (.inr rfl) prints)
  case h_3 path unnamed =>
    split
    case isTrue => exact .failure (console.broken_fails _ _)
    case isFalse =>
      refine store_ends steady ?_
      rintro rfl
      exact unnamed rfl

/-- A text that can be shown in the way that is asked for is shown. -/
theorem deliver_of_takes (steady : system.Steady) (takes : system.Takes state destination) :
    (console.deliver system.files destination reports text state).1.exitCode = 0 := by
  unfold Console.deliver
  split
  case h_1 | h_2 => rfl
  case h_3 path unnamed =>
    obtain rfl | ⟨legal, handle, created⟩ := takes
    · exact absurd rfl unnamed
    · rw [if_neg (Bool.eq_false_iff.mp legal), Console.store, bind_apply, created]
      dsimp only
      rw [bind_apply, steady created]
      rfl

end Delivering

section Carrying

variable {system console} {state : system.State} {request : Request}

/-- A request is met, or nothing is changed. -/
theorem carryOut_ends (documented : console.toolkit.Documented) (steady : system.Steady)
    (whole : system.HoldsWhole state request.grammars) :
    system.Ends state (system.Meets console state request)
      (console.carryOut system.files request state) := by
  rw [Console.carryOut, bind_apply]
  -- The source and the failed run are told apart by what loading ends in.
  have loading := system.loadSource_ends console whole
  generalize console.loadSource system.files request.grammars state = loaded at loading ⊢
  cases loading with
  | failure fails => exact .failure fails
  | @source source loads =>
    dsimp only
    cases made : View.named request.target source request.config with
    | error failure => exact .failure (console.broken_fails _ _)
    | ok view =>
      dsimp only
      split
      case isTrue => exact .failure (console.failed_fails _ _)
      case isFalse some =>
        exact (deliver_ends documented steady).imp fun _ _ delivers =>
          ⟨source, view, loads, made, some, delivers⟩

/-- A request that can be met is met. -/
theorem carryOut_succeeds (steady : system.Steady) {source : Source} {view : View}
    (loads : system.Loads state request.grammars source)
    (made : View.named request.target source request.config = .ok view) (some : view.text ≠ "")
    (takes : system.Takes state request.output) :
    (console.carryOut system.files request state).1.exitCode = 0 := by
  rw [Console.carryOut, bind_apply, system.loadSource_of_loads console loads]
  dsimp only
  rw [made]
  dsimp only
  rw [if_neg some]
  exact deliver_of_takes steady takes

end Carrying

/-- Runs that touch files only on success, and that succeed where they can. -/
structure TouchesFilesOnSuccess (arguments : List String) (before : system.State) : Prop where
  failure : (system.run console arguments before).1.exitCode ≠ 0 →
    (system.run console arguments before).2 = before
      ∧ (system.run console arguments before).1.output = ""
  success : (system.run console arguments before).1.exitCode = 0 →
    ∃ request, console.toolkit.request? arguments = some request
      ∧ system.Meets console before request (system.run console arguments before).1.output
        (system.run console arguments before).2
  /-- Where no argument names the option for the output, no file changes. -/
  undirected : (∀ argument ∈ arguments, mentionsOutput argument = false) →
    (system.run console arguments before).2 = before
  /-- Where the last arguments name a file for the output, whatever stands before them, the view is
  put into that file. -/
  directed : ∀ {others path request}, arguments = others ++ ["--output", path] → "--" ∉ others →
    console.toolkit.request? others = some request → path ≠ "" →
    (system.run console arguments before).1.exitCode = 0 →
    (system.run console arguments before).1.output = ""
      ∧ ∃ source view, system.Loads before request.grammars source
        ∧ View.named request.target source request.config = .ok view
        ∧ system.Puts before path view.text (system.run console arguments before).2
  completes : ∀ {request source view}, console.toolkit.request? arguments = some request →
    system.Loads before request.grammars source →
    View.named request.target source request.config = .ok view → view.text ≠ "" →
    system.Takes before request.output →
    (system.run console arguments before).1.exitCode = 0

/-- Every run touches files only on success, in every file system and every state of it. -/
theorem runs_touch_files_on_success {system : FileSystem} {console : Console}
    (documented : console.toolkit.Documented) (steady : system.Steady) {arguments : List String}
    {before : system.State}
    (whole : ∀ request, console.toolkit.request? arguments = some request →
      system.HoldsWhole before request.grammars) :
    system.TouchesFilesOnSuccess console arguments before := by
  have ends : system.Ends before
      (fun output after => ∃ request, console.toolkit.request? arguments = some request
        ∧ system.Meets console before request output after)
      (system.run console arguments before) := by
    rw [run, Console.run]
    cases asked : console.toolkit.request? arguments with
    | none => exact .failure console.misused_fails
    | some request =>
      exact (carryOut_ends documented steady (whole request asked)).imp
        fun _ _ meets => ⟨request, rfl, meets⟩
  refine ⟨ends.keeps, ends.shows, ?undirected, ?directed, ?completes⟩
  case undirected =>
    intro silent
    by_cases succeeds : (system.run console arguments before).1.exitCode = 0
    · obtain ⟨request, asked, source, view, -, -, -, delivers⟩ := ends.shows succeeds
      rw [documented.noOutput asked silent] at delivers
      generalize (system.run console arguments before).2 = after at delivers ⊢
      cases delivers
      rfl
    · exact (ends.keeps succeeds).1
  case directed =>
    rintro others path request rfl separate asked named succeeds
    obtain ⟨again, askedAgain, source, view, loads, made, -, delivers⟩ := ends.shows succeeds
    rw [documented.lastOutput path separate asked] at askedAgain
    cases askedAgain
    generalize (system.run console (others ++ ["--output", path]) before).1.output = output,
      (system.run console (others ++ ["--output", path]) before).2 = after at delivers ⊢
    cases delivers with
    | printed nowhere => simp [named] at nowhere
    | written _ puts => exact ⟨rfl, source, view, loads, made, puts⟩
  case completes =>
    intro request source view asked loads made some takes
    rw [run, Console.run, asked]
    exact carryOut_succeeds steady loads made some takes

end FileSystem

/-- A grammar with a token that turns what follows it red on a terminal. -/
def redToken : String :=
  "\x7b\"a\": \x7b\"token\": \"\\u001b[31mred\"\x7d\x7d"

/-- The source that the grammar spells. -/
def redSource : Source :=
  ⟨[("a", .obj [("token", .str "\x1b[31mred")])], []⟩

/-- A directory with the grammar and nothing else. -/
def redDirectory : FileTree.system.State :=
  FileTree.mk [(["g.json"], .file redToken.toUTF8.toList)]

/-- The grammar spells no half of a surrogate pair alone. -/
theorem spellsWhole_redToken : SpellsWhole redToken.toUTF8.toList := by
  intro characters read
  have decoded : Utf8.readText redToken.toUTF8.toList = .ok redToken.toList := by cbv
  cases decoded.symm.trans read
  cbv

/-- The arguments that ask for the plain listing of the grammar. -/
def redArguments : List String :=
  ["g.json", "-t", "bottlecaps"]

/-- The request that the arguments make. -/
def redRequest : Request :=
  ⟨["g.json"], "bottlecaps", none, true, false, none⟩

/-- The grammar is all that is to be found. -/
theorem eq_of_holds_red {bytes : List UInt8}
    (holds : FileTree.system.Holds redDirectory "g.json" bytes) :
    bytes = redToken.toUTF8.toList := by
  obtain ⟨location, located, present⟩ := holds
  cases located
  exact (Option.some.inj present).symm

/-- The grammar spells its source. -/
theorem reads_redToken : Source.ofBytes redToken.toUTF8.toList = .ok redSource := by
  cbv

/-- The grammar is loaded on request. -/
theorem loads_redSource : FileTree.system.Loads redDirectory redRequest.grammars redSource :=
  .file rfl ⟨["g.json"], rfl, rfl⟩ spellsWhole_redToken reads_redToken

/-- The view of the grammar holds the control sequence. -/
theorem view_redSource : View.named redRequest.target redSource redRequest.config
    = .ok ⟨"a ::= '\x1b[31mred'", []⟩ := by
  cbv

/-- The view is put into a file with the control sequence, where the last arguments say so. -/
theorem control_sequence_put_into_file :
    Console.redirected.toolkit.Documented ∧ FileTree.system.Steady
      ∧ (∀ request, request? (redArguments ++ ["--output", "red"]) = some request →
        FileTree.system.HoldsWhole redDirectory request.grammars)
      ∧ (FileTree.system.run .redirected (redArguments ++ ["--output", "red"])
        redDirectory).1.exitCode = 0
      ∧ (FileTree.system.run .redirected (redArguments ++ ["--output", "red"])
        redDirectory).1.output = ""
      ∧ FileTree.system.Puts redDirectory "red" "a ::= '\x1b[31mred'"
        (FileTree.system.run .redirected (redArguments ++ ["--output", "red"]) redDirectory).2 := by
  have documented : Console.redirected.toolkit.Documented := documented_usual
  have steady : FileTree.system.Steady := FileTree.steady
  have whole : ∀ request, request? (redArguments ++ ["--output", "red"]) = some request →
      FileTree.system.HoldsWhole redDirectory request.grammars := by
    rintro request ⟨⟩ path listed bytes holds
    obtain rfl := List.mem_singleton.mp listed
    exact eq_of_holds_red holds ▸ spellsWhole_redToken
  have touches := FileSystem.runs_touch_files_on_success documented steady whole
  have succeeds := touches.completes rfl loads_redSource view_redSource (by decide)
    (.inr ⟨rfl, ["red"], rfl⟩)
  have separate : "--" ∉ redArguments := by decide
  have asked : Console.redirected.toolkit.request? redArguments = some redRequest := rfl
  obtain ⟨silent, source, view, loads, made, puts⟩ :=
    touches.directed rfl separate asked (by decide) succeeds
  obtain rfl : source = redSource := by
    cases loads with
    | file _ holds _ reads =>
      rw [eq_of_holds_red holds, reads_redToken] at reads
      exact (Except.ok.inj reads).symm
  cases view_redSource.symm.trans made
  exact ⟨documented, steady, whole, succeeds, silent, puts⟩

/-- The control sequence in a token is not printed, so what is printed is not the view. -/
theorem control_sequence_not_printed :
    ∃ request source view, request? redArguments = some request ∧ request.output = none
      ∧ FileTree.system.Loads redDirectory request.grammars source
      ∧ View.named request.target source request.config = .ok view
      ∧ (FileTree.system.run .redirected redArguments redDirectory).1.exitCode = 0
      ∧ (FileTree.system.run .redirected redArguments redDirectory).1.output ≠ ""
      ∧ (FileTree.system.run .redirected redArguments redDirectory).1.output
        ≠ view.text ++ "\n" := by
  have shown : printed false "a ::= '\x1b[31mred'" = "a ::= 'red'\n" := by cbv
  have ran : FileTree.system.run .redirected redArguments redDirectory
      = (⟨0, "a ::= 'red'\n", "", none⟩, redDirectory) := by
    change Console.redirected.carryOut FileTree.system.files redRequest redDirectory = _
    rw [Console.carryOut, FileSystem.bind_apply,
      FileTree.system.loadSource_of_loads .redirected loads_redSource]
    dsimp only
    rw [view_redSource, ← shown]
    rfl
  refine ⟨redRequest, redSource, _, rfl, rfl, loads_redSource, view_redSource, ?_⟩
  rw [ran]
  exact ⟨rfl, by decide, by decide⟩

end GrammarView.CommandLine
