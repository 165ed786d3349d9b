import CircuitTrace.CommandLine.Run

/-! # The program

The arguments, the recording on the standard input and the files of the machine are passed to
`CommandLine.main`, and what it says is printed. -/

namespace CircuitTrace

/-- The failure of a file operation on this machine. -/
def fileFault : IO.Error → FileFault
  | .noFileOrDirectory .. => .notFound
  | .permissionDenied .. => .permissionDenied
  | .alreadyExists _ 20 _ => .notADirectory
  | .alreadyExists .. => .alreadyExists
  | .inappropriateType _ 20 _ => .notADirectory
  | .inappropriateType .. => .isADirectory
  | .invalidArgument _ 36 _ => .nameTooLong
  | e => .other (toString e)

/-- The failure of an action on the files of this machine, if it fails. -/
def attemptIO (act : IO Unit) : IO (Option FileFault) := do
  try
    act
    return none
  catch e => return some (fileFault e)

/-- A name is that of a directory of this machine. -/
def isMachineDirectory (name : String) : IO Bool := do
  try
    (← IO.FS.realPath name).isDir
  catch _ => return false

/-- The files of this machine. -/
def machineDisk : Disk IO where
  makeDirectory name := attemptIO (IO.FS.createDir name)
  isDirectory := isMachineDirectory
  write name contents := attemptIO (IO.FS.writeFile name contents)
  read name := do
    if ← isMachineDirectory name then return .ok none
    try
      return .ok (some (← IO.FS.readFile name))
    catch e => return .error (fileFault e)

end CircuitTrace

/-- Runs the program. -/
def main (arguments : List String) : IO UInt32 := do
  let outcome ←
    CircuitTrace.CommandLine.main CircuitTrace.machineDisk arguments do (← IO.getStdin).readToEnd
  IO.eprint outcome.stderr
  IO.print outcome.stdout
  return outcome.code.toUInt32
