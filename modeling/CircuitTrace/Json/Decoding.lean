import CircuitTrace.Json.Basic
import CircuitTrace.Json.Escape
import CircuitTrace.Json.Token

/-! # Reading data out of JSON values

A reader of a kind of data is a function from values to `Reading`: it answers with the data or with
the first objection that it meets in the order of the text. There are two objections. A value is
*malformed* if it is not of the kind that is due, and it may be the well-formed description of an
*invalid register*, which is reported with its numbers.

A record is an object, or an array of the values of its fields in their order, of which the last
ones may be missing. `named` turns both into a list of named values, and `readMembers` takes these
one by one. A value under an unknown name is passed over: nothing is asked of it except that it is
not broken. A known name must not come twice (`fill`).

Values are nested to a limited depth. The *room* of a reader is the number of arrays and objects
that may still be opened; a value that is passed over needs none. -/

namespace CircuitTrace

/-- The objection of a reader. -/
inductive ReadFault where
  /-- The value is not of the kind that is due. -/
  | malformed
  /-- The numbers do not describe a register. -/
  | invalidRegister (kind qubit : Nat) (classical : Option Nat)
  deriving DecidableEq

/-- What a reader answers. -/
abbrev Reading (α : Type) := Except ReadFault α

/-- The objection in words, where it has words of its own. -/
def ReadFault.message? : ReadFault → Option String
  | .malformed => none
  | .invalidRegister kind qubit classical =>
    some ("Invalid register of type " ++ toString kind ++ " on qubit " ++ toString qubit ++
      " with classical id " ++
      match classical with
      | none => "None"
      | some c => "Some(" ++ toString c ++ ")")

namespace Json

/-- The arrays and objects that may be opened inside one another. -/
def nestingRoom : Nat := 127

/-! ### Plain data -/

/-- Reads a text. -/
def readText : Json → Reading String
  | .str body =>
    match unescape? body with
    | some s => .ok (String.ofList s)
    | none => .error .malformed
  | _ => .error .malformed

/-- Reads a truth value. -/
def readBool : Json → Reading Bool
  | .bool b => .ok b
  | _ => .error .malformed

/-- The number that a list of ASCII digits writes. -/
def digitsValue (digits : List Char) : Nat :=
  digits.foldl (fun n c => n * 10 + (c.toNat - '0'.toNat)) 0

/-- Reads a natural number below a bound, which must be written with digits alone. -/
def readNat (bound : Nat) : Json → Reading Nat
  | .num lexeme =>
    if lexeme.all isDigit && digitsValue lexeme < bound then .ok (digitsValue lexeme)
    else .error .malformed
  | _ => .error .malformed

/-- Reads a number of 64 bits. -/
def readWord : Json → Reading Nat := readNat UInt64.size

/-- Reads what may be left open by `null`. -/
def readOptional {α : Type} (read : Json → Reading α) : Json → Reading (Option α)
  | .null => .ok none
  | j => (read j).map some

/-- Reads values one after the other. -/
def readAll {α : Type} (read : Json → Reading α) : List Json → Reading (List α)
  | [] => .ok []
  | j :: js =>
    match read j with
    | .error e => .error e
    | .ok x => (readAll read js).map (x :: ·)

/-- Reads the items of an array, which is one more array to open. -/
def readList {α : Type} (room : Nat) (read : Json → Reading α) : Json → Reading (List α)
  | .arr items => if room = 0 then .error .malformed else readAll read items
  | _ => .error .malformed

/-! ### Records -/

/-- The items of an array under the names of the fields of a record. An item beyond the last field
makes the record a broken one. -/
def nameItems : List String → List Json → List (List Char × Json)
  | _, [] => []
  | [], _ :: _ => [([], .fault)]
  | name :: names, j :: js => (name.toList, j) :: nameItems names js

/-- The named values of a record with the given fields. -/
def named (fields : List String) : Json → Option (List (List Char × Json))
  | .obj members => some members
  | .arr items => some (nameItems fields items)
  | _ => none

/-- Takes named values one by one. For a known name `take` gives the record with the value in it. -/
def readMembers {ρ : Type} (take : ρ → String → Json → Option (Reading ρ)) :
    ρ → List (List Char × Json) → Reading ρ
  | r, [] => .ok r
  | r, (name, j) :: ms =>
    match unescape? name with
    | none => .error .malformed
    | some name =>
      match take r (String.ofList name) j with
      | some (.ok r) => readMembers take r ms
      | some (.error e) => .error e
      | none => if j.sound then readMembers take r ms else .error .malformed

/-- Reads the named values of a record, which is one more array or object to open. -/
def readRecord {ρ : Type} (room : Nat) (fields : List String)
    (take : ρ → String → Json → Option (Reading ρ)) (empty : ρ) (j : Json) : Reading ρ :=
  match named fields j with
  | some members => if room = 0 then .error .malformed else readMembers take empty members
  | none => .error .malformed

/-- Reads the value of a field that must not have one yet. -/
def fill {α : Type} (field : Option α) (read : Json → Reading α) (j : Json) :
    Reading (Option α) :=
  match field with
  | some _ => .error .malformed
  | none => (read j).map some

/-- The value of a field that must have one. -/
def need {α : Type} : Option α → Reading α
  | some x => .ok x
  | none => .error .malformed

/-! ### Choices -/

/-- Reads the name of an alternative and what comes with it: a text is the name alone, an object
with one member a name with a value. The object is one more object to open. -/
def readChoice (room : Nat) : Json → Reading (String × Option Json)
  | .str body => (readText (.str body)).map fun name => (name, none)
  | .obj [(name, j)] =>
    if room = 0 then .error .malformed
    else (readText (.str name)).map fun name => (name, some j)
  | _ => .error .malformed

/-- What comes with an alternative that carries nothing is nothing or `null`. -/
def readNothing : Option Json → Reading Unit
  | none => .ok ()
  | some .null => .ok ()
  | some _ => .error .malformed

/-! ### Whole texts -/

/-- Reads the only value of a text. An objection to the value comes before one to the text behind
it. -/
def readOnly {α : Type} (read : Json → Reading α) : List Json → Reading α
  | [] => .error .malformed
  | [j] => read j
  | j :: _ :: _ =>
    match read j with
    | .error e => .error e
    | .ok _ => .error .malformed

/-- Reads the values of a text one after the other, up to the first objection. -/
def readSeries {α : Type} (read : Json → Reading α) : List Json → List α × Option ReadFault
  | [] => ([], none)
  | j :: js =>
    match read j with
    | .error e => ([], some e)
    | .ok x =>
      let (xs, e) := readSeries read js
      (x :: xs, e)

end Json

end CircuitTrace
