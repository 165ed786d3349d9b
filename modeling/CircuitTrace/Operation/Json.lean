import CircuitTrace.Json.Reader
import CircuitTrace.Operation.Basic
import CircuitTrace.Register.Json

/-! # Operations and execution paths as JSON values

An operation is a record. Its label and its targets are always written; the arguments and the
children are left out when there are none, the flags when they are false and the controls when they
are empty. All but the label may be missing when it is read.

An operation opens one object, and its list of children one array more, so an operation nested in
`n` others is `2 * n` arrays and objects deep. -/

namespace CircuitTrace

open Json

namespace Operation

/-- The named value, if it is to be written. -/
def memberIf (written : Bool) (name : String) (j : Json) : List (String × Json) :=
  if written then [(name, j)] else []

mutual

/-- The operation as a JSON value. -/
def toJson : Operation → Json
  | ⟨gate, displayArgs, children, isControlled, isAdjoint, isMeasurement, controls, targets⟩ =>
    record <|
      [("gate", text gate)] ++
      (match displayArgs with
        | none => []
        | some args => [("displayArgs", text args)]) ++
      childrenMember children ++
      memberIf isControlled "isControlled" (.bool true) ++
      memberIf isAdjoint "isAdjoint" (.bool true) ++
      memberIf isMeasurement "isMeasurement" (.bool true) ++
      memberIf (!controls.isEmpty) "controls" (.arr (controls.map Register.toJson)) ++
      [("targets", .arr (targets.map Register.toJson))]

/-- The children of an operation as a named value, if it has a list of them. -/
def childrenMember : Option (List Operation) → List (String × Json)
  | none => []
  | some ops => [("children", .arr (toJsonAll ops))]

/-- Operations as JSON values. -/
def toJsonAll : List Operation → List Json
  | [] => []
  | op :: ops => toJson op :: toJsonAll ops

end

/-- The fields of an operation, as far as they have been read. -/
structure Fields where
  /-- The label. -/
  gate : Option String
  /-- The arguments, which may be left open. -/
  displayArgs : Option (Option String)
  /-- The children, which may be left open. -/
  children : Option (Option (List Operation))
  /-- The flag of a gate under control. -/
  isControlled : Option Bool
  /-- The flag of a gate that acts backwards. -/
  isAdjoint : Option Bool
  /-- The flag of a measurement. -/
  isMeasurement : Option Bool
  /-- The controls. -/
  controls : Option (List Register)
  /-- The targets. -/
  targets : Option (List Register)

namespace Fields

/-- No field has been read. -/
def empty : Fields := ⟨none, none, none, none, none, none, none, none⟩

/-- The fields in the order in which an array gives them. -/
def names : List String :=
  ["gate", "displayArgs", "children", "isControlled", "isAdjoint", "isMeasurement", "controls",
    "targets"]

/-- Reads a list of registers. -/
def readRegisters (room : Nat) : Json → Reading (List Register) :=
  readList room (Register.ofJson (room - 1))

/-- Reads one of the fields, the children with the given reader. -/
def take (room : Nat) (readChildren : Json → Reading (List Operation)) (f : Fields)
    (name : String) (j : Json) : Option (Reading Fields) :=
  match name with
  | "gate" => some ((fill f.gate readText j).map fun x => { f with gate := x })
  | "displayArgs" =>
    some ((fill f.displayArgs (readOptional readText) j).map fun x => { f with displayArgs := x })
  | "children" =>
    some ((fill f.children (readOptional readChildren) j).map fun x => { f with children := x })
  | "isControlled" =>
    some ((fill f.isControlled readBool j).map fun x => { f with isControlled := x })
  | "isAdjoint" => some ((fill f.isAdjoint readBool j).map fun x => { f with isAdjoint := x })
  | "isMeasurement" =>
    some ((fill f.isMeasurement readBool j).map fun x => { f with isMeasurement := x })
  | "controls" =>
    some ((fill f.controls (readRegisters room) j).map fun x => { f with controls := x })
  | "targets" =>
    some ((fill f.targets (readRegisters room) j).map fun x => { f with targets := x })
  | _ => none

/-- The operation of the fields; a field that has not been read is empty. -/
def operation (f : Fields) : Reading Operation := do
  let gate ← need f.gate
  return ⟨gate, f.displayArgs.getD none, f.children.getD none, f.isControlled.getD false,
    f.isAdjoint.getD false, f.isMeasurement.getD false, f.controls.getD [], f.targets.getD []⟩

end Fields

/-- Reads an operation, its children with the given reader. -/
def ofJsonWith (room : Nat) (readChildren : Json → Reading (List Operation)) (j : Json) :
    Reading Operation := do
  let f ← readRecord room Fields.names (Fields.take (room - 1) readChildren) Fields.empty j
  f.operation

/-- Reads an operation. -/
def ofJson : (room : Nat) → Json → Reading Operation
  | 0 => ofJsonWith 0 fun _ => .error .malformed
  | 1 => ofJsonWith 1 fun _ => .error .malformed
  | room + 2 => ofJsonWith (room + 2) (readList (room + 1) (ofJson room))

end Operation

namespace ExecutionPath

/-- The path as a JSON value. -/
def toJson (p : ExecutionPath) : Json :=
  record [("qubits", .arr (p.qubits.map QubitDeclaration.toJson)),
    ("operations", .arr (Operation.toJsonAll p.operations))]

/-- Reads one of the fields of a path. -/
def take (room : Nat) (p : Option (List QubitDeclaration) × Option (List Operation))
    (name : String) (j : Json) :
    Option (Reading (Option (List QubitDeclaration) × Option (List Operation))) :=
  match name with
  | "qubits" =>
    some ((fill p.1 (readList room (QubitDeclaration.ofJson (room - 1))) j).map fun x => (x, p.2))
  | "operations" =>
    some ((fill p.2 (readList room (Operation.ofJson (room - 1))) j).map fun x => (p.1, x))
  | _ => none

/-- Reads a path. -/
def ofJson (room : Nat) (j : Json) : Reading ExecutionPath := do
  let p ← readRecord room ["qubits", "operations"] (take (room - 1)) (none, none) j
  let qubits ← need p.1
  let operations ← need p.2
  return ⟨qubits, operations⟩

/-- The path that a text holds. -/
def ofText (s : String) : Reading ExecutionPath :=
  readOnly (ofJson nestingRoom) (documents s.toList)

/-- The path as text on indented lines. -/
def prettyText (p : ExecutionPath) : String := String.ofList (pretty p.toJson)

end ExecutionPath

end CircuitTrace
