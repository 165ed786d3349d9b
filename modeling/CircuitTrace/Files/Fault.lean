/-! # Failures of file operations

The failures that a file system reports, with the number, the kind and the words that they are known
by. A name with a null character never reaches the file system, so that its failure has no number.
-/

namespace CircuitTrace

/-- What a file system objects to. -/
inductive FileFault where
  /-- Nothing is there. -/
  | notFound
  /-- The access is not allowed. -/
  | permissionDenied
  /-- Something is there already. -/
  | alreadyExists
  /-- A file stands where a directory is due. -/
  | notADirectory
  /-- A directory stands where a file is due. -/
  | isADirectory
  /-- A name is too long. -/
  | nameTooLong
  /-- A name has a null character. -/
  | nullCharacter
  /-- Any other failure, in words. -/
  | other (words : String)
  deriving DecidableEq

namespace FileFault

/-- The number, the kind and the words of a failure. -/
def parts : FileFault → Option Nat × String × String
  | notFound => (some 2, "NotFound", "No such file or directory")
  | permissionDenied => (some 13, "PermissionDenied", "Permission denied")
  | alreadyExists => (some 17, "AlreadyExists", "File exists")
  | notADirectory => (some 20, "NotADirectory", "Not a directory")
  | isADirectory => (some 21, "IsADirectory", "Is a directory")
  | nameTooLong => (some 36, "InvalidFilename", "File name too long")
  | nullCharacter => (none, "InvalidInput", "file name contained an unexpected NUL byte")
  | other words => (none, "Uncategorized", words)

/-- The failure in words. -/
def message (f : FileFault) : String :=
  match f.parts with
  | (some code, _, words) => words ++ " (os error " ++ toString code ++ ")"
  | (none, _, words) => words

/-- The failure with its number and kind. -/
def describe (f : FileFault) : String :=
  match f.parts with
  | (some code, kind, words) =>
    "Os \x7b code: " ++ toString code ++ ", kind: " ++ kind ++ ", message: \"" ++ words ++ "\" \x7d"
  | (none, kind, words) => "Error \x7b kind: " ++ kind ++ ", message: \"" ++ words ++ "\" \x7d"

end FileFault

end CircuitTrace
