import MeteredLedger.Text.Split

/-!
# File trees

A file tree says what stands at each location: a directory, a file or nothing.
Commands name files by paths, which are walked component by component from the
working directory or, after a leading separator, from the root. Different paths
may lead to one location, and it is the location that is read and written.

A write either replaces the whole content of one file or fails and changes
nothing.
-/

namespace MeteredLedger.Cli

/-- Why a file could not be read or written. -/
inductive FileError where
  /-- Nothing stands at the location, or on the way to it. -/
  | notFound
  | notDirectory
  | isDirectory
  | notText
  /-- Any other failure, with its report. -/
  | other (report : String)
  deriving DecidableEq, Repr

def FileError.message : FileError → String
  | notFound => "No such file or directory (os error 2)"
  | notDirectory => "Not a directory (os error 20)"
  | isDirectory => "Is a directory (os error 21)"
  | notText => "stream did not contain valid UTF-8"
  | other report => report

/-- The text that the bytes of a file encode, if they encode any. -/
def decodeText (content : ByteArray) : Except FileError String :=
  (String.fromUTF8? content).elim (.error .notText) .ok

/-- The names that lead from the root to a place in a tree. -/
abbrev Location := List String

/-- What stands at a location. -/
inductive Node where
  | directory
  | file (content : ByteArray)

instance : DecidableEq Node
  | .directory, .directory => isTrue rfl
  | .directory, .file _ => isFalse nofun
  | .file _, .directory => isFalse nofun
  | .file a, .file b => decidable_of_iff (a.data = b.data) (by rw [Node.file.injEq, ByteArray.ext_iff])

/-- A tree of files with a working directory. -/
structure FileTree where
  /-- What stands at each location but the root, which is a directory. -/
  nodes : List (Location × Node)
  workingDirectory : Location

namespace FileTree

/-- What stands at a location. -/
def node? (tree : FileTree) : Location → Option Node
  | [] => some .directory
  | location => tree.nodes.lookup location

/-- A location with the locations that lead to it. -/
def lineage (location : Location) : List Location :=
  (List.range (location.length + 1)).map location.take

/-- The tree of some files and directories. Everything that leads to one of
them is a directory. -/
def ofFiles (workingDirectory : Location) (directories : List Location)
    (files : List (Location × ByteArray)) : FileTree where
  nodes :=
    files.map (fun (location, content) => (location, .file content)) ++
      ((workingDirectory :: directories ++ files.map (·.1.dropLast)).flatMap lineage).map
        (·, .directory)
  workingDirectory

/-- The files of a tree that are not the same in an earlier one. -/
def changesSince (tree before : FileTree) : List (Location × ByteArray) :=
  tree.nodes.filterMap fun
    | (location, .file content) =>
      if before.node? location = some (.file content) then none else some (location, content)
    | (_, .directory) => none

/-- Puts a file at a location, in place of what stands there. -/
def put (tree : FileTree) (location : Location) (content : ByteArray) : FileTree :=
  { tree with
    nodes := (location, .file content) :: tree.nodes.filter (·.1 != location) }

def names (path : String) : List String :=
  ((Text.splitWhere (· == '/') path.toList).filter (!·.isEmpty)).map String.ofList

/-- Where a path starts. -/
def start (tree : FileTree) (path : String) : Location :=
  if path.toList.head? = some '/' then [] else tree.workingDirectory

/-- Whether a path ends with a separator, and so can only lead to a directory. -/
def endsWithSeparator (path : String) : Bool :=
  path.toList.getLast? == some '/'

/-- Follows one name out of a location, which has to be a directory. -/
def enter (tree : FileTree) (location : Location) (name : String) : Except FileError Location :=
  match tree.node? location with
  | none => .error .notFound
  | some (.file _) => .error .notDirectory
  | some .directory =>
    if name = "." then .ok location
    else if name = ".." then .ok location.dropLast
    else .ok (location ++ [name])

/-- The location a path leads to. Whether anything stands there is left open. -/
def locate (tree : FileTree) (path : String) : Except FileError Location :=
  if path.isEmpty then .error .notFound
  else (names path).foldlM tree.enter (tree.start path)

/-- The text of the file that a path leads to. -/
def read (tree : FileTree) (path : String) : Except FileError String := do
  let location ← tree.locate path
  match tree.node? location with
  | none => .error .notFound
  | some .directory => .error .isDirectory
  | some (.file content) =>
    if endsWithSeparator path then .error .notDirectory else decodeText content

/-- The location of the file that a path lets be written. -/
def target (tree : FileTree) (path : String) : Except FileError Location := do
  let location ← tree.locate path
  if endsWithSeparator path ∨ tree.node? location = some .directory then .error .isDirectory
  else .ok location

def write (tree : FileTree) (path text : String) : Except FileError FileTree := do
  let location ← tree.target path
  return tree.put location text.toUTF8

/-- After a file is put at a location below the root, it stands there. -/
theorem node?_put_self (tree : FileTree) {location : Location} (h : location ≠ [])
    (content : ByteArray) :
    (tree.put location content).node? location = some (.file content) := by
  cases location with
  | nil => exact absurd rfl h
  | cons name rest => simp [node?, put]

/-- Putting a file changes no other location. -/
theorem node?_put_of_ne (tree : FileTree) {location other : Location} (h : other ≠ location)
    (content : ByteArray) : (tree.put location content).node? other = tree.node? other := by
  cases other with
  | nil => rfl
  | cons name rest =>
    have hne : ((name :: rest : Location) == location) = false := by simpa using h
    simp only [node?, put, List.lookup_cons, hne]
    induction tree.nodes with
    | nil => rfl
    | cons entry nodes ih =>
      obtain ⟨location', node⟩ := entry
      by_cases heq : location' = location
      · subst heq
        simp [List.lookup_cons, hne, ih]
      · rw [List.filter_cons_of_pos (by simpa using heq)]
        simp only [List.lookup_cons, ih]

end FileTree

end MeteredLedger.Cli
