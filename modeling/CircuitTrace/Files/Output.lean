import CircuitTrace.Files.Directory
import CircuitTrace.Operation.Json
import CircuitTrace.Text.Quoted

/-! # Writing results to files

A result is written to a file whose directories are made on the way (`writeFile`). The operations
that are needed for it are those of a `Disk`; a directory tree is one (`Directory.disk`), and so is
whatever the program runs on. -/

namespace CircuitTrace

/-- The file operations that a program needs. -/
structure Disk (m : Type → Type) where
  /-- Makes a directory in a directory that is there. -/
  makeDirectory : String → m (Option FileFault)
  /-- The name is that of a directory. -/
  isDirectory : String → m Bool
  /-- Writes a file in a directory that is there. -/
  write : String → String → m (Option FileFault)
  /-- Reads a file; a directory can be opened and has no contents. -/
  read : String → m (Except FileFault (Option String))

/-- A result could not be written. -/
inductive OutputError where
  /-- The directory of the file could not be made. -/
  | createDir (dir : String) (fault : FileFault)
  /-- The file could not be written. -/
  | write (path : String) (fault : FileFault)
  deriving DecidableEq

namespace OutputError

/-- The report of a result that could not be written. -/
def message : OutputError → String
  | createDir dir fault => "Cannot create output directory '" ++ dir ++ "': " ++ fault.message
  | write path fault => "Cannot write '" ++ path ++ "': " ++ fault.message

/-- The name and the data of the error. -/
def describe : OutputError → String
  | createDir dir fault =>
    "CreateDir \x7b dir: " ++ Text.quoted dir ++ ", source: " ++ fault.describe ++ " \x7d"
  | write path fault =>
    "Write \x7b path: " ++ Text.quoted path ++ ", source: " ++ fault.describe ++ " \x7d"

end OutputError

variable {m : Type → Type} [Monad m]

/-- Makes a directory and those above it, which are given the nearest first. A directory that is
there is good; the empty name always is. -/
def makeDirectories (disk : Disk m) : List String → m (Option FileFault)
  | [] => return some (.other "failed to create whole tree")
  | dir :: above => do
    if dir = "" then return none
    match ← disk.makeDirectory dir with
    | none => return none
    | some .notFound =>
      match ← makeDirectories disk above with
      | some fault => return some fault
      | none =>
        match ← disk.makeDirectory dir with
        | none => return none
        | some fault => return if ← disk.isDirectory dir then none else some fault
    | some fault => return if ← disk.isDirectory dir then none else some fault

/-- Writes a file, over a file of the same name, and makes its directories. -/
def writeFile (disk : Disk m) (path contents : String) : m (Option OutputError) := do
  let writeIt : m (Option OutputError) := do
    return (← disk.write path contents).map (.write path)
  match Path.ancestors path with
  | [] => writeIt
  | "" :: _ => writeIt
  | dir :: above =>
    match ← makeDirectories disk (dir :: above) with
    | some fault => return some (.createDir dir fault)
    | none => writeIt

/-- Writes an execution path as text on indented lines. -/
def writeExecutionPath (disk : Disk m) (path : String) (p : ExecutionPath) :
    m (Option OutputError) :=
  writeFile disk path p.prettyText

/-- The script file of a base name. -/
def scriptPath (base : String) : String := base ++ ".py"

/-- An operation on a tree that changes it unless it fails. -/
def Directory.attempt (change : Directory → Except FileFault Directory) :
    StateM Directory (Option FileFault) := fun d =>
  match change d with
  | .ok d' => (none, d')
  | .error e => (some e, d)

/-- A directory tree as a disk. -/
def Directory.disk : Disk (StateM Directory) where
  makeDirectory name := attempt (·.makeDirectory name)
  isDirectory name := fun d => (d.isDirectory name, d)
  write name contents := attempt (·.writeFile name contents)
  read name := fun d => (d.readFile name, d)

end CircuitTrace
