/-! # JSON values as they are written

A JSON value is kept as it is written: a number as its lexeme and a string as the text between its
quotes, escapes included. So a value says nothing yet about what its numbers and strings mean, and a
reader that passes over a value never has to understand it.

A text may break off or go wrong inside a value. Such a text is read as a *broken* value, in which a
`fault` stands in the place where the text went wrong; everything before that place is there, and
nothing follows it. A reader that walks through a broken value in the order of the text therefore
meets the faults of the text and its own objections in their order. `Json.sound` says that a value
is not broken. -/

namespace CircuitTrace

/-- A JSON value as it is written. -/
inductive Json where
  /-- The word `null`. -/
  | null
  /-- One of the words `true` and `false`. -/
  | bool (b : Bool)
  /-- A number, given by its lexeme. -/
  | num (lexeme : List Char)
  /-- A string, given by the text between its quotes. -/
  | str (body : List Char)
  /-- An array. -/
  | arr (items : List Json)
  /-- An object, given by its members in order, each with its name as it is written. -/
  | obj (members : List (List Char × Json))
  /-- The place where the text went wrong. -/
  | fault

namespace Json

mutual

/-- No fault stands in the value. -/
def sound : Json → Bool
  | .null | .bool _ | .num _ | .str _ => true
  | .arr items => allSound items
  | .obj members => allMembersSound members
  | .fault => false

/-- No fault stands in any of the values. -/
def allSound : List Json → Bool
  | [] => true
  | j :: js => sound j && allSound js

/-- No fault stands in the value of any of the members. -/
def allMembersSound : List (List Char × Json) → Bool
  | [] => true
  | (_, j) :: ms => sound j && allMembersSound ms

end

end Json

end CircuitTrace
