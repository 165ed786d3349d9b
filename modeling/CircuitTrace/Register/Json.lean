import CircuitTrace.Json.Decoding
import CircuitTrace.Json.Printer
import CircuitTrace.Register.Allocator

/-! # Registers as JSON values

A register is a record of its kind, its qubit and, if it is a classical bit, the number of the
measurement. Kind 0 is a qubit and kind 1 a classical bit. A record of any other kind, and one with
a number of a measurement too many or too few, is well formed but describes no register. -/

namespace CircuitTrace

open Json

namespace Register

/-- The register as a JSON value. -/
def toJson : Register → Json
  | qubit q => record [("type", nat 0), ("qId", nat q)]
  | classical q c => record [("type", nat 1), ("qId", nat q), ("cId", nat c)]

/-- The numbers of a register, as far as they have been read. -/
structure Numbers where
  /-- The kind. -/
  kind : Option Nat
  /-- The qubit. -/
  qubit : Option Nat
  /-- The number of the measurement, which may be left open. -/
  classical : Option (Option Nat)

/-- Reads one of the numbers of a register. -/
def Numbers.take (n : Numbers) (name : String) (j : Json) : Option (Reading Numbers) :=
  match name with
  | "type" => some ((fill n.kind (readNat 256) j).map fun x => { n with kind := x })
  | "qId" => some ((fill n.qubit readWord j).map fun x => { n with qubit := x })
  | "cId" =>
    some ((fill n.classical (readOptional readWord) j).map fun x => { n with classical := x })
  | _ => none

/-- The register that numbers describe. -/
def ofNumbers (kind q : Nat) (c : Option Nat) : Reading Register :=
  match kind, c with
  | 0, none => .ok (qubit q)
  | 1, some c => .ok (classical q c)
  | kind, c => .error (.invalidRegister kind q c)

/-- Reads a register. -/
def ofJson (room : Nat) (j : Json) : Reading Register := do
  let n ← readRecord room ["type", "qId", "cId"] Numbers.take ⟨none, none, none⟩ j
  let kind ← need n.kind
  let q ← need n.qubit
  ofNumbers kind q (n.classical.getD none)

end Register

namespace QubitDeclaration

/-- The declaration as a JSON value. -/
def toJson (d : QubitDeclaration) : Json :=
  record [("id", nat d.id), ("numChildren", nat d.numChildren)]

/-- Reads one of the numbers of a declaration. -/
def take (d : Option Nat × Option Nat) (name : String) (j : Json) :
    Option (Reading (Option Nat × Option Nat)) :=
  match name with
  | "id" => some ((fill d.1 readWord j).map fun x => (x, d.2))
  | "numChildren" => some ((fill d.2 readWord j).map fun x => (d.1, x))
  | _ => none

/-- Reads a declaration. -/
def ofJson (room : Nat) (j : Json) : Reading QubitDeclaration := do
  let d ← readRecord room ["id", "numChildren"] take (none, none) j
  let id ← need d.1
  let numChildren ← need d.2
  return ⟨id, numChildren⟩

end QubitDeclaration

end CircuitTrace
