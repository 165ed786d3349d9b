import CircuitTrace.Json.Basic
import CircuitTrace.Json.Escape

/-! # Writing JSON values

A value is written without any white space (`compact`), or with every item and member on a line of
its own, indented by two spaces for each array or object around it (`pretty`); empty arrays and
objects stay on one line. Text, numbers and names are put into a value by `text`, `nat` and
`record`. -/

namespace CircuitTrace.Json

/-- A text as a value. -/
def text (s : String) : Json := .str (escape s.toList)

/-- A natural number as a value. -/
def nat (n : Nat) : Json := .num (Nat.toDigits 10 n)

/-- Named values as an object. -/
def record (members : List (String × Json)) : Json :=
  .obj (members.map fun (name, j) => (escape name.toList, j))

/-- The body of a string between its quotes. -/
def quotedBody (body : List Char) : List Char := '\x22' :: body ++ ['\x22']

/-- The lexeme of a truth value. -/
def boolWord (b : Bool) : List Char := if b then "true".toList else "false".toList

mutual

/-- A value without white space. -/
def compact : Json → List Char
  | .null => "null".toList
  | .bool b => boolWord b
  | .num lexeme => lexeme
  | .str body => quotedBody body
  | .arr items => '[' :: compactItems items ++ [']']
  | .obj members => '\x7b' :: compactMembers members ++ ['\x7d']
  | .fault => []

/-- The items of an array with commas between them. -/
def compactItems : List Json → List Char
  | [] => []
  | [j] => compact j
  | j :: js => compact j ++ ',' :: compactItems js

/-- The members of an object with commas between them. -/
def compactMembers : List (List Char × Json) → List Char
  | [] => []
  | [(name, j)] => quotedBody name ++ ':' :: compact j
  | (name, j) :: ms => quotedBody name ++ ':' :: compact j ++ ',' :: compactMembers ms

end

/-- A line end and the indentation of the next line. -/
def newLine (depth : Nat) : List Char := '\n' :: List.replicate (2 * depth) ' '

mutual

/-- A value on indented lines, of which the first is already indented. -/
def prettyAt (depth : Nat) : Json → List Char
  | .null => "null".toList
  | .bool b => boolWord b
  | .num lexeme => lexeme
  | .str body => quotedBody body
  | .arr [] => ['[', ']']
  | .arr items => '[' :: prettyItems (depth + 1) items ++ newLine depth ++ [']']
  | .obj [] => ['\x7b', '\x7d']
  | .obj members => '\x7b' :: prettyMembers (depth + 1) members ++ newLine depth ++ ['\x7d']
  | .fault => []

/-- The items of an array, each on new lines. -/
def prettyItems (depth : Nat) : List Json → List Char
  | [] => []
  | [j] => newLine depth ++ prettyAt depth j
  | j :: js => newLine depth ++ prettyAt depth j ++ ',' :: prettyItems depth js

/-- The members of an object, each on new lines. -/
def prettyMembers (depth : Nat) : List (List Char × Json) → List Char
  | [] => []
  | [(name, j)] => newLine depth ++ quotedBody name ++ ':' :: ' ' :: prettyAt depth j
  | (name, j) :: ms =>
    newLine depth ++ quotedBody name ++ ':' :: ' ' :: prettyAt depth j ++
      ',' :: prettyMembers depth ms

end

/-- A value on indented lines. -/
def pretty (j : Json) : List Char := prettyAt 0 j

end CircuitTrace.Json
