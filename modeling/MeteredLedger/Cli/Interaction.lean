import MeteredLedger.Cli.FileTree

/-!
# Interactions with files

A command does not touch files itself. It is an interaction: a value that says
which file is read or written next, and how to go on with what comes of it.
Here an interaction runs on a file tree; a program runs the same one on the
files of its machine.
-/

namespace MeteredLedger.Cli

/-- What a command leaves behind when it ends. -/
structure Reply where
  exitCode : UInt32
  stdout : String
  stderr : String
  deriving DecidableEq, Repr

/-- A command in progress. -/
inductive Interaction where
  | done (reply : Reply)
  | read (path : String) (next : Except FileError String → Interaction)
  | write (path text : String) (next : Except FileError Unit → Interaction)

namespace Interaction

/-- Runs an interaction to its end, and gives the files as it leaves them. -/
def run (tree : FileTree) : Interaction → Reply × FileTree
  | done reply => (reply, tree)
  | read path next => (next (tree.read path)).run tree
  | write path text next =>
    match tree.write path text with
    | .error e => (next (.error e)).run tree
    | .ok written => (next (.ok ())).run written

@[simp] theorem run_done (tree : FileTree) (reply : Reply) :
    (done reply).run tree = (reply, tree) := rfl

@[simp] theorem run_read (tree : FileTree) (path : String)
    (next : Except FileError String → Interaction) :
    (read path next).run tree = (next (tree.read path)).run tree := rfl

/-- A write that fails leaves the files as they were. -/
theorem run_write_of_error {tree : FileTree} {path text : String} {e : FileError}
    (h : tree.write path text = .error e) (next : Except FileError Unit → Interaction) :
    (write path text next).run tree = (next (.error e)).run tree := by
  simp [run, h]

theorem run_write_of_ok {tree written : FileTree} {path text : String}
    (h : tree.write path text = .ok written) (next : Except FileError Unit → Interaction) :
    (write path text next).run tree = (next (.ok ())).run written := by
  simp [run, h]

/-- Ends well, with output. -/
def succeed (stdout : String) : Interaction :=
  done ⟨0, stdout, ""⟩

def fail (exitCode : UInt32) (stderr : String) : Interaction :=
  done ⟨exitCode, "", stderr⟩

/-- Goes on with a value, or ends with the report of why there is none. -/
def ofExcept (report : ε → String) (next : α → Interaction) : Except ε α → Interaction
  | .error e => fail 1 (report e)
  | .ok a => next a

end Interaction

end MeteredLedger.Cli
