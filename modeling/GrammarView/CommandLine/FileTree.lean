import GrammarView.CommandLine.Files
import GrammarView.Entries

/-!
# Trees of files

A file system as a value: what every path from one directory leads to. The operations of the
command line on it are pure functions, so a run is a function from one tree to the next.

Around that directory there is nothing but further directories: those above it, without end, and
the top of the file system.
-/

namespace GrammarView.CommandLine

/-- What a path leads to. -/
inductive Node where
  | directory
  | file (bytes : List UInt8)
  deriving DecidableEq, Repr

/-- Where a path leads: names from the directory of a tree downwards. A location outside begins
with two dots for every directory upwards, or with a slash for the top of the file system. -/
abbrev Location := List String

namespace Location

/-- The directory itself. -/
def here : Location :=
  []

/-- The top of the file system. -/
def top : Location :=
  ["/"]

/-- Whether a location is the directory itself or one that it lies in. -/
def isAround (location : Location) : Bool :=
  location == top || location.all (· == "..")

/-- The location that two dots lead to. Above the top there is only the top. -/
def above (location : Location) : Location :=
  if location = top then top
  else if location.isAround then location ++ [".."]
  else location.dropLast

end Location

/-- The files and directories below one directory, by their locations. -/
structure FileTree where
  nodes : List (Location × Node)
  deriving Repr

namespace FileTree

/-- The greatest size of a name in bytes. -/
def longestName : Nat :=
  255

/-- The greatest size of a path in bytes. -/
def longestPath : Nat :=
  4095

/-- The tree of an empty directory. -/
def empty : FileTree :=
  ⟨[]⟩

/-- What stands at a location. -/
def node? (tree : FileTree) (location : Location) : Option Node :=
  if location.isAround then some .directory else tree.nodes.lookup location

/-- The tree with something put at a location. -/
def put (tree : FileTree) (location : Location) (node : Node) : FileTree :=
  ⟨tree.nodes.filter (·.1 != location) ++ [(location, node)]⟩

/-- Follows the parts of a path from a location, as far as directories go. The last part need not
lead to anything. -/
def follow (tree : FileTree) (reached : Location) : List String → Except FileFault Location
  | [] => .ok reached
  | part :: rest =>
    match tree.node? reached with
    | none => .error .missing
    | some (.file _) => .error .notDirectory
    | some .directory =>
      if part = "" ∨ part = "." then tree.follow reached rest
      else if part = ".." then tree.follow reached.above rest
      else if longestName < part.utf8ByteSize then .error .nameTooLong
      else tree.follow (reached ++ [part]) rest

/-- The location where a path begins. -/
def beginning (path : String) : Except FileFault Location :=
  if path = "" then .error .missing
  else if longestPath < path.utf8ByteSize then .error .nameTooLong
  else .ok (if isRooted path then Location.top else Location.here)

/-- The location that a path leads to. -/
def locate (tree : FileTree) (path : String) : Except FileFault Location := do
  tree.follow (← beginning path) (pathParts path)

/-- Whether a path leads to a file or a directory. -/
def isPresent (tree : FileTree) (path : String) : Bool :=
  match tree.locate path with
  | .ok location => (tree.node? location).isSome
  | .error _ => false

/-- The bytes of the file that a path leads to. -/
def read (tree : FileTree) (path : String) : Except FileFault (List UInt8) :=
  match tree.locate path with
  | .error fault => .error fault
  | .ok location =>
    match tree.node? location with
    | none => .error .missing
    | some .directory => .error .isDirectory
    | some (.file bytes) => .ok bytes

/-- The parts of a path that ends in a name and slashes after it, without these slashes; none for
any other path. -/
def slashedParts? (path : String) : Option (List String) :=
  let parts := pathParts path
  let named := (parts.reverse.dropWhile (· == "")).reverse
  match named.getLast? with
  | none => none
  | some last =>
    if named.length < parts.length ∧ last ≠ "." ∧ last ≠ ".." then some named else none

/-- The location of a file that is to be written. A name with a slash after it asks for a
directory, whatever the name leads to, so only the way to the name is followed. -/
def destination (tree : FileTree) (path : String) : Except FileFault Location :=
  match slashedParts? path with
  | none => tree.locate path
  | some parts => do
    let _ ← tree.follow (← beginning path) (parts.dropLast ++ ["."])
    .error .isDirectory

/-- Takes away what the file holds that a path leads to, or makes that file. -/
def create (tree : FileTree) (path : String) : Except FileFault Location × FileTree :=
  match tree.destination path with
  | .error fault => (.error fault, tree)
  | .ok location =>
    match tree.node? location with
    | some .directory => (.error .isDirectory, tree)
    | _ => (.ok location, tree.put location (.file []))

/-- The operations of the command line on a tree. A file that has been opened is known by its
location, and takes any text. -/
def files : Files (StateM FileTree) where
  Handle := Location
  isPresent path := fun tree => (tree.isPresent path, tree)
  read path := fun tree => (tree.read path, tree)
  create path := fun tree => tree.create path
  put location content := fun tree =>
    (.ok (), tree.put location (.file content.toUTF8.toList))

end FileTree

end GrammarView.CommandLine
