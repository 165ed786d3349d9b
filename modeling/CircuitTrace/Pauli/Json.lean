import CircuitTrace.Json.Decoding
import CircuitTrace.Json.Printer
import CircuitTrace.Pauli.Basic

/-! # Pauli operators as JSON values

In JSON an operator is an alternative without data, named by its upper-case letter. -/

namespace CircuitTrace.Pauli

open Json

/-- The operator as a JSON value. -/
def toJson (p : Pauli) : Json := text p.letter

/-- The operator of an upper-case letter. -/
def ofName : String → Reading Pauli
  | "I" => .ok I
  | "X" => .ok X
  | "Z" => .ok Z
  | "Y" => .ok Y
  | _ => .error .malformed

/-- Reads an operator. -/
def ofJson (room : Nat) (j : Json) : Reading Pauli := do
  let (name, data) ← readChoice room j
  let p ← ofName name
  readNothing data
  return p

end CircuitTrace.Pauli
