import CircuitTrace.Json.Basic
import CircuitTrace.Json.Token

/-! # Reading JSON values

`documents` reads the values that a text holds one after the other. It works through the tokens in
one pass with a stack of the arrays and objects that are open (`Frame`), and with what is due in the
innermost place (`Spot`). Where a token is not what is due, the value under way is finished as a
broken one (`broken`): what has been read of it stays in its place, and a fault stands where the
text went wrong. What is read behind a broken value has no meaning.

Every open array or object costs one entry of the stack, so a value may be nested to any depth. -/

namespace CircuitTrace.Json

/-- An array or object in the middle of which a value is being read. -/
inductive Frame where
  /-- An array, with the items before that value, the last one first. -/
  | item (before : List Json)
  /-- An object, with the members before that value, the last one first, and its name. -/
  | member (before : List (List Char × Json)) (name : List Char)

/-- What is due in the innermost place. -/
inductive Spot where
  /-- A value. -/
  | value
  /-- The first item of an array, or its end. -/
  | arrayStart
  /-- A comma or the end of an array, after the given items, the last one first. -/
  | arrayNext (items : List Json)
  /-- The first name in an object, or its end. -/
  | objectStart
  /-- A name in an object, after the given members, the last one first. -/
  | name (members : List (List Char × Json))
  /-- The colon behind a name. -/
  | colon (members : List (List Char × Json)) (name : List Char)
  /-- A comma or the end of an object, after the given members, the last one first. -/
  | objectNext (members : List (List Char × Json))

/-- The outermost value, when the innermost one is `j` and nothing follows it. -/
def enclose : List Frame → Json → Json
  | [], j => j
  | .item before :: fs, j => enclose fs (.arr (before.reverse ++ [j]))
  | .member before name :: fs, j => enclose fs (.obj (before.reverse ++ [(name, j)]))

/-- The broken value that is left when the text goes wrong in a place. -/
def broken (fs : List Frame) (spot : Spot) : Json :=
  enclose fs <|
    match spot with
    | .value => .fault
    | .arrayStart => .arr [.fault]
    | .arrayNext items => .arr (items.reverse ++ [.fault])
    | .objectStart => .obj [([], .fault)]
    | .name members => .obj (members.reverse ++ [([], .fault)])
    | .colon members name => .obj (members.reverse ++ [(name, .fault)])
    | .objectNext members => .obj (members.reverse ++ [([], .fault)])

/-- What a token leads to: more of the same value, or its end. -/
inductive Progress where
  /-- The value goes on. -/
  | more (fs : List Frame) (spot : Spot)
  /-- The value is complete, or broken. -/
  | done (j : Json)

/-- A value is complete in the innermost place. -/
def deliver : List Frame → Json → Progress
  | [], j => .done j
  | .item before :: fs, j => .more fs (.arrayNext (j :: before))
  | .member before name :: fs, j => .more fs (.objectNext ((name, j) :: before))

/-- A token comes where a value is due; nothing if no value starts with it. -/
def startValue? (fs : List Frame) : Token → Option Progress
  | .null => some (deliver fs .null)
  | .bool b => some (deliver fs (.bool b))
  | .num lexeme => some (deliver fs (.num lexeme))
  | .str body => some (deliver fs (.str body))
  | .openArray => some (.more fs .arrayStart)
  | .openObject => some (.more fs .objectStart)
  | _ => none

/-- A token comes in a place. -/
def advance (fs : List Frame) (spot : Spot) (t : Token) : Progress :=
  match spot, t with
  | .value, t => (startValue? fs t).getD (.done (broken fs .value))
  | .arrayStart, .closeArray => deliver fs (.arr [])
  | .arrayStart, t => (startValue? (.item [] :: fs) t).getD (.done (broken fs .arrayStart))
  | .arrayNext items, .closeArray => deliver fs (.arr items.reverse)
  | .arrayNext items, .comma => .more (.item items :: fs) .value
  | .objectStart, .closeObject => deliver fs (.obj [])
  | .objectStart, .str name => .more fs (.colon [] name)
  | .name members, .str name => .more fs (.colon members name)
  | .colon members name, .colon => .more (.member members name :: fs) .value
  | .objectNext members, .closeObject => deliver fs (.obj members.reverse)
  | .objectNext members, .comma => .more fs (.name members)
  | spot, _ => .done (broken fs spot)

/-- The values of the rest of a text, when one may be under way. -/
def documentsFrom : List Frame → Spot → List Token → List Json
  | [], .value, [] => []
  | fs, spot, [] => [broken fs spot]
  | fs, spot, t :: ts =>
    match advance fs spot t with
    | .more fs spot => documentsFrom fs spot ts
    | .done j => j :: documentsFrom [] .value ts

/-- The values that a text holds, one after the other. -/
def documents (s : List Char) : List Json := documentsFrom [] .value (tokens s)

end CircuitTrace.Json
