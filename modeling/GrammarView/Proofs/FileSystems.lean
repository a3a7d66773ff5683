import GrammarView.CommandLine.FileTree
import Mathlib.Tactic.SplitIfs

/-!
# File systems

What a run may rely on in a file system: looking for a file and reading one change nothing, a file
that cannot be opened for writing stays as it was, one that is opened is emptied, and a text that is
put into it stands there alone. Trees of files are a file system of this kind.
-/

namespace GrammarView.CommandLine

/-- A file system as it is seen from outside: its operations, what they act on, the files that
there are, and where paths lead. -/
structure FileView where
  State : Type
  Location : Type
  files : Files (StateM State)
  /-- The bytes of the file at a location, if there is one. -/
  content : State → Location → Option (List UInt8)
  /-- The location that a path leads to. -/
  locate : State → String → Option Location
  /-- The location of a file that has been opened for writing. -/
  opened : files.Handle → Location

namespace FileView

variable (view : FileView)

/-- Whether a path leads to a file of some bytes. -/
def Holds (state : view.State) (path : String) (bytes : List UInt8) : Prop :=
  ∃ location, view.locate state path = some location ∧ view.content state location = some bytes

/-- Whether bytes have been put at a location and nothing else has been done. All paths still lead
where they led. -/
structure Sets (before : view.State) (location : view.Location) (bytes : List UInt8)
    (after : view.State) : Prop where
  here : view.content after location = some bytes
  elsewhere : ∀ other, other ≠ location → view.content after other = view.content before other
  paths : ∀ path found, view.locate before path = some found → view.locate after path = some found

/-- Whether putting a text into the file that a path leads to is all that has been done. -/
def Puts (before : view.State) (path content : String) (after : view.State) : Prop :=
  ∃ location, view.locate after path = some location
    ∧ view.content after location = some content.toUTF8.toList
    ∧ ∀ other, other ≠ location → view.content after other = view.content before other

/-- Whether no text fails to be put into a file that has just been opened. -/
def Steady : Prop :=
  ∀ {path content state handle}, (view.files.create path state).1 = .ok handle →
    (view.files.put handle content (view.files.create path state).2).1 = .ok ()

end FileView

/-- A file system whose operations do what they are meant to do. -/
structure FileSystem extends FileView where
  isPresent_keeps : ∀ path state, (files.isPresent path state).2 = state
  isPresent_of_holds : ∀ {path state bytes}, toFileView.Holds state path bytes →
    (files.isPresent path state).1 = true
  read_keeps : ∀ path state, (files.read path state).2 = state
  read_iff : ∀ {path state bytes}, (files.read path state).1 = .ok bytes ↔
    toFileView.Holds state path bytes
  create_keeps : ∀ {path state fault}, (files.create path state).1 = .error fault →
    (files.create path state).2 = state
  create_leads : ∀ {path state handle}, (files.create path state).1 = .ok handle →
    locate (files.create path state).2 path = some (opened handle)
  create_sets : ∀ {path state handle}, (files.create path state).1 = .ok handle →
    toFileView.Sets state (opened handle) [] (files.create path state).2
  put_sets : ∀ {handle text state bytes}, content state (opened handle) = some bytes →
    (files.put handle text state).1 = .ok () →
      toFileView.Sets state (opened handle) text.toUTF8.toList (files.put handle text state).2

/-- A text that is put into a file that has just been opened is all that has been put anywhere. -/
theorem FileSystem.puts_of_put (system : FileSystem) {path text : String} {before : system.State}
    {handle : system.files.Handle} (created : (system.files.create path before).1 = .ok handle)
    (stored : (system.files.put handle text (system.files.create path before).2).1 = .ok ()) :
    system.Puts before path text
      (system.files.put handle text (system.files.create path before).2).2 := by
  have emptied := system.create_sets created
  have filled := system.put_sets emptied.here stored
  refine ⟨system.opened handle, filled.paths _ _ (system.create_leads created), filled.here, ?_⟩
  intro other different
  rw [filled.elsewhere other different, emptied.elsewhere other different]

namespace FileTree

variable {tree : FileTree} {location other reached found : Location} {node : Node}
  {path content : String} {parts : List String}

/-- What has been put at a location stands there. -/
theorem node?_put_self (inside : location.isAround = false) :
    (tree.put location node).node? location = some node := by
  have removed : (tree.nodes.filter (·.1 != location)).lookup location = none := by
    simp only [List.lookup_eq_none_iff, List.mem_filter, bne_iff_ne]
    exact fun entry kept => kept.2.symm
  simp [node?, inside, put, List.lookup_append, removed]

/-- What stands at other locations stays there when something is put at one. -/
theorem node?_put_of_ne (different : other ≠ location) :
    (tree.put location node).node? other = tree.node? other := by
  have kept : (tree.nodes.filter (·.1 != location)).lookup other = tree.nodes.lookup other := by
    induction tree.nodes with
    | nil => rfl
    | cons entry rest inductionHypothesis => grind
  have last : [(location, node)].lookup other = none := by simp [different]
  simp [node?, put, List.lookup_append, kept, last]

/-- Ways lead over directories, so they stay when something is put where no directory is. -/
theorem follow_put (noDirectory : tree.node? location ≠ some .directory)
    (followed : tree.follow reached parts = .ok found) :
    (tree.put location node).follow reached parts = .ok found := by
  induction parts generalizing reached with
  | nil => exact followed
  | cons part rest inductionHypothesis =>
    unfold follow at followed ⊢
    split at followed
    case h_1 | h_2 => contradiction
    case h_3 directory =>
      have different : reached ≠ location := by
        rintro rfl
        exact noDirectory directory
      rw [node?_put_of_ne different, directory]
      dsimp only
      split_ifs at followed ⊢ with stays climbs long
      all_goals exact inductionHypothesis followed

/-- The location that a path leads to stays when something is put where no directory is. -/
theorem locate_put (noDirectory : tree.node? location ≠ some .directory)
    (located : tree.locate path = .ok found) :
    (tree.put location node).locate path = .ok found := by
  unfold locate at located ⊢
  cases begun : beginning path with
  | error => rw [begun] at located; contradiction
  | ok start =>
    rw [begun] at located
    exact follow_put noDirectory located

/-- A file is written where its path leads. -/
theorem locate_of_destination (written : tree.destination path = .ok location) :
    tree.locate path = .ok location := by
  unfold destination at written
  split at written
  case h_1 => exact written
  case h_2 parts _ =>
    -- A path with a slash after a name leads to no file that can be written.
    cases begun : beginning path with
    | error fault =>
      rw [begun] at written
      contradiction
    | ok start =>
      rw [begun] at written
      change (tree.follow start (parts.dropLast ++ ["."]) >>= fun _ => .error .isDirectory) = _
        at written
      cases followed : tree.follow start (parts.dropLast ++ ["."]) with
      | _ =>
        rw [followed] at written
        contradiction

/-- The bytes of the file at a location, if there is one. -/
def content? (tree : FileTree) (location : Location) : Option (List UInt8) :=
  match tree.node? location with
  | some (.file bytes) => some bytes
  | _ => none

/-- At a location are bytes exactly where a file with them stands. -/
theorem content?_eq_some_iff {bytes : List UInt8} :
    tree.content? location = some bytes ↔ tree.node? location = some (.file bytes) := by
  unfold content?
  split
  case h_1 => simp_all
  case h_2 other => simpa using other bytes

/-- Results without faults are successes. -/
theorem toOption_eq_some_iff {ε α : Type} {result : Except ε α} {value : α} :
    result.toOption = some value ↔ result = .ok value := by
  cases result <;> simp [Except.toOption]

/-- A tree of files as it is seen from outside. -/
def view : FileView where
  State := FileTree
  Location := Location
  files := files
  content := content?
  locate tree path := (tree.locate path).toOption
  opened := id

/-- A path leads to a file if it leads to a location where a file stands. -/
theorem holds_iff {bytes : List UInt8} : view.Holds tree path bytes ↔
    ∃ location, tree.locate path = .ok location ∧ tree.node? location = some (.file bytes) :=
  exists_congr fun _ => and_congr toOption_eq_some_iff content?_eq_some_iff

/-- What is read is the file that the path leads to. -/
theorem read_eq_ok {bytes : List UInt8} :
    tree.read path = .ok bytes ↔ view.Holds tree path bytes := by
  rw [holds_iff, FileTree.read]
  cases tree.locate path with
  | error fault => simp
  | ok location =>
    simp only [Except.ok.injEq, exists_eq_left']
    cases tree.node? location with
    | none => simp
    | some node => cases node <;> simp

/-- Where a path leads to a file there is something. -/
theorem isPresent_of_holds {bytes : List UInt8} (holds : view.Holds tree path bytes) :
    tree.isPresent path = true := by
  obtain ⟨location, located, present⟩ := holds_iff.mp holds
  simp [isPresent, located, present]

/-- A file is put where there is no directory, and nothing else is done. -/
theorem sets_put (noDirectory : tree.node? location ≠ some .directory) (bytes : List UInt8) :
    view.Sets tree location bytes (tree.put location (.file bytes)) where
  here := by
    have inside : location.isAround = false :=
      Bool.eq_false_iff.mpr fun around => noDirectory (by rw [node?, if_pos around])
    simp [view, content?, node?_put_self inside]
  elsewhere other different := by
    simp [view, content?, node?_put_of_ne different]
  paths path found located := by
    have leads : tree.locate path = .ok found := toOption_eq_some_iff.mp located
    exact congrArg Except.toOption (locate_put noDirectory leads)

/-- A file that is opened for writing stands empty where its path leads, and otherwise nothing is
done. -/
theorem create_outcome (tree : FileTree) (path : String) :
    (∃ fault, tree.create path = (.error fault, tree))
      ∨ ∃ location, tree.create path = (.ok location, tree.put location (.file []))
        ∧ tree.locate path = .ok location ∧ tree.node? location ≠ some .directory := by
  unfold create
  split
  case h_1 fault _ => exact .inl ⟨fault, rfl⟩
  case h_2 location written =>
    split
    case h_1 => exact .inl ⟨_, rfl⟩
    case h_2 noDirectory =>
      exact .inr ⟨location, rfl, locate_of_destination written, noDirectory⟩

/-- A file that is opened for writing has been made where its path leads. -/
theorem create_eq_ok (created : (tree.create path).1 = .ok location) :
    (tree.create path).2 = tree.put location (.file []) ∧ tree.locate path = .ok location
      ∧ tree.node? location ≠ some .directory := by
  obtain ⟨fault, same⟩ | ⟨found, same, rest⟩ := tree.create_outcome path
  · rw [same] at created
    contradiction
  · rw [same] at created ⊢
    cases created
    exact ⟨rfl, rest⟩

/-- Trees of files as a file system. -/
def system : FileSystem where
  toFileView := view
  isPresent_keeps _ _ := rfl
  isPresent_of_holds := isPresent_of_holds
  read_keeps _ _ := rfl
  read_iff := read_eq_ok
  create_keeps {path tree fault} failed := by
    change (tree.create path).1 = _ at failed
    change (tree.create path).2 = _
    obtain ⟨_, same⟩ | ⟨_, same, -⟩ := tree.create_outcome path
    · rw [same]
    · rw [same] at failed
      contradiction
  create_leads {path tree location} created := by
    obtain ⟨after, located, noDirectory⟩ := create_eq_ok created
    change ((tree.create path).2.locate path).toOption = some location
    rw [after, locate_put noDirectory located]
    rfl
  create_sets {path tree location} created := by
    obtain ⟨after, -, noDirectory⟩ := create_eq_ok created
    change view.Sets tree location [] (tree.create path).2
    exact after ▸ sets_put noDirectory []
  put_sets {location text tree bytes} present _ := by
    refine sets_put ?_ text.toUTF8.toList
    rw [content?_eq_some_iff.mp present]
    nofun

/-- Every text can be put into a file of a tree. -/
theorem steady : system.Steady :=
  fun _ => rfl

end FileTree

end GrammarView.CommandLine
