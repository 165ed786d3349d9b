import CircuitTrace.Text.Pieces

/-! # File names

A file name leads through directories: its pieces stand between slashes. Empty pieces and the piece
`.` lead nowhere, except for a `.` at the very start, which names the directory where the way
starts; a slash at the very start is the root. `ancestors` lists the directories that a name leads
through, the nearest first; the empty name stands for the directory where the way starts. -/

namespace CircuitTrace.Path

/-- The pieces of a file name. -/
def piecesOf (name : String) : List String := (Text.pieces '/' name.toList).map String.ofList

/-- The piece leads nowhere. -/
def isIdle (piece : String) : Bool := piece = "" || piece = "."

/-- Where the way of a name starts, and the rest of the name. -/
def front (name : List Char) : List Char × List Char :=
  match name with
  | '/' :: rest => (['/'], rest)
  | ['.'] => (['.'], [])
  | '.' :: '/' :: rest => (['.'], '/' :: rest)
  | rest => ([], rest)

/-- The name of the directory that is reached over the given pieces, the last one first. -/
def directoryName (front : List Char) (backwards : List String) : String :=
  String.ofList front ++ String.intercalate "/" (backwards.dropWhile isIdle).reverse

/-- The directories above the given pieces, the last one first. -/
def ancestorsFrom (front : List Char) : List String → List String
  | [] => if front = ['.'] then [""] else []
  | piece :: backwards =>
    if isIdle piece then ancestorsFrom front backwards
    else directoryName front backwards :: ancestorsFrom front backwards

/-- The directories that a name leads through, the nearest first. -/
def ancestors (name : String) : List String :=
  let (front, rest) := front name.toList
  ancestorsFrom front (piecesOf (String.ofList rest)).reverse

end CircuitTrace.Path
