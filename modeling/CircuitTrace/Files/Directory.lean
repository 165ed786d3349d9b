import CircuitTrace.Files.Fault
import CircuitTrace.Files.Path

/-! # A directory tree

A directory tree is a list of the files and directories below its root, each under the pieces of its
name. The tree answers the way a file system does: a name is followed piece by piece, where `..`
leads up, and only then is it asked what stands under the last piece. A name that ends in a slash
never names a file. -/

namespace CircuitTrace

/-- The files, with their contents, and the directories of a tree. -/
structure Directory where
  /-- What is below the root, by the pieces of its name; a directory has no contents. -/
  entries : List (List String × Option String)
  deriving DecidableEq

namespace Directory

/-- The tree with nothing in it. -/
def empty : Directory := ⟨[]⟩

/-- The bytes that a piece of a name may have. -/
def maxPieceBytes : Nat := 255

/-- The bytes that a name may have. -/
def maxNameBytes : Nat := 4095

/-- What stands under a name. -/
def find? (d : Directory) (place : List String) : Option (Option String) := d.entries.lookup place

/-- Puts something under a name, in the place of what stands there. -/
def put (d : Directory) (place : List String) (contents : Option String) : Directory :=
  ⟨d.entries.filter (fun e => e.1 != place) ++ [(place, contents)]⟩

/-- The directory that is reached over pieces. -/
def follow (d : Directory) (place : List String) : List String → Except FileFault (List String)
  | [] => .ok place
  | piece :: rest =>
    if Path.isIdle piece then d.follow place rest
    else if piece = ".." then d.follow place.dropLast rest
    else if piece.utf8ByteSize > maxPieceBytes then .error .nameTooLong
    else match d.find? (place ++ [piece]) with
      | none => .error .notFound
      | some (some _) => .error .notADirectory
      | some none => d.follow (place ++ [piece]) rest

/-- The last piece of a name and the way to it. -/
structure Target where
  /-- The directory that the last piece stands in. -/
  place : List String
  /-- The last piece; none if the name is that of a directory by its form. -/
  piece : Option String
  /-- The name ends in a slash. -/
  slash : Bool

/-- The pieces of a name in front of the last one, and the last one without slashes behind it. -/
def splitLast (name : String) : Option (List String × String) :=
  match (Path.piecesOf name).reverse.dropWhile (· = "") with
  | [] => none
  | last :: way => some (way.reverse, last)

/-- Follows a name up to its last piece. -/
def locate (d : Directory) (name : String) : Except FileFault Target :=
  if name.contains '\x00' then .error .nullCharacter
  else if name = "" then .error .notFound
  else if name.utf8ByteSize > maxNameBytes then .error .nameTooLong
  else match splitLast name with
    | none => .ok ⟨[], none, true⟩
    | some (way, last) =>
      match d.follow [] way with
      | .error e => .error e
      | .ok place =>
        if last = "." || last = ".." then .ok ⟨place, none, false⟩
        else .ok ⟨place, some last, (Path.piecesOf name).getLast? = some ""⟩

/-- What stands under the last piece of a name. -/
def lookUp (d : Directory) (place : List String) (piece : String) :
    Except FileFault (Option (Option String)) :=
  if piece.utf8ByteSize > maxPieceBytes then .error .nameTooLong
  else .ok (d.find? (place ++ [piece]))

/-- Makes a directory in a directory that is there. -/
def makeDirectory (d : Directory) (name : String) : Except FileFault Directory :=
  match d.locate name with
  | .error e => .error e
  | .ok ⟨_, none, _⟩ => .error .alreadyExists
  | .ok ⟨place, some piece, _⟩ =>
    match d.lookUp place piece with
    | .error e => .error e
    | .ok (some _) => .error .alreadyExists
    | .ok none => .ok (d.put (place ++ [piece]) none)

/-- The name is that of a directory. -/
def isDirectory (d : Directory) (name : String) : Bool :=
  if name = "" || name.contains '\x00' || name.utf8ByteSize > maxNameBytes then false
  else match d.follow [] (Path.piecesOf name) with
    | .ok _ => true
    | .error _ => false

/-- Writes a file in a directory that is there, over a file of the same name. -/
def writeFile (d : Directory) (name contents : String) : Except FileFault Directory :=
  match d.locate name with
  | .error e => .error e
  | .ok ⟨_, none, _⟩ => .error .isADirectory
  | .ok ⟨_, some _, true⟩ => .error .isADirectory
  | .ok ⟨place, some piece, false⟩ =>
    match d.lookUp place piece with
    | .error e => .error e
    | .ok (some none) => .error .isADirectory
    | .ok _ => .ok (d.put (place ++ [piece]) (some contents))

/-- The contents of a file; a directory can be opened and has none. -/
def readFile (d : Directory) (name : String) : Except FileFault (Option String) :=
  match d.locate name with
  | .error e => .error e
  | .ok ⟨_, none, _⟩ => .ok none
  | .ok ⟨place, some piece, slash⟩ =>
    match d.lookUp place piece with
    | .error e => .error e
    | .ok none => .error .notFound
    | .ok (some none) => .ok none
    | .ok (some (some contents)) => if slash then .error .notADirectory else .ok (some contents)

end Directory

end CircuitTrace
