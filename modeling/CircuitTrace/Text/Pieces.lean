/-! # Pieces of a text

A text is cut at every occurrence of a separator (`pieces`) or at its first one (`cutFirst`), and
into physical lines (`physicalLines`). The pieces are never empty as a list, and putting the
separator back between them gives the text again; a physical line ends at a line feed, which takes
a carriage return before it along, and a text that ends in a line feed has no empty last line. -/

namespace CircuitTrace.Text

/-- The pieces of a text between the occurrences of a separator, in order. -/
def pieces (sep : Char) : List Char → List (List Char)
  | [] => [[]]
  | c :: s =>
    if c = sep then [] :: pieces sep s
    else match pieces sep s with
      | [] => [[c]]
      | p :: ps => (c :: p) :: ps

/-- What stands before the first occurrence of a separator and what stands after it. -/
def cutFirst (sep : Char) : List Char → Option (List Char × List Char)
  | [] => none
  | c :: s =>
    if c = sep then some ([], s) else (cutFirst sep s).map fun (a, b) => (c :: a, b)

/-- The end of a line that a line feed closes: a carriage return before it belongs to it. The line
is given backwards. -/
def closeLine : List Char → List Char
  | '\r' :: line => line.reverse
  | line => line.reverse

/-- The physical lines of a text, when the line read so far is `line`, backwards. -/
def physicalLinesFrom (line : List Char) : List Char → List (List Char)
  | [] => if line.isEmpty then [] else [line.reverse]
  | '\n' :: s => closeLine line :: physicalLinesFrom [] s
  | c :: s => physicalLinesFrom (c :: line) s

/-- The physical lines of a text. -/
def physicalLines (s : List Char) : List (List Char) := physicalLinesFrom [] s

/-- The text in round brackets, if it is a bracketed text. -/
def unbracket : List Char → Option (List Char)
  | '(' :: s => if s.getLast? = some ')' then some s.dropLast else none
  | _ => none

end CircuitTrace.Text
