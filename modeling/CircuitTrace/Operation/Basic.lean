import CircuitTrace.Register.Allocator

/-! # Operations

An operation is one invocation of a gate together with everything that it called. Operations without
any calls have no list of children at all; a list that is there may still be empty when it comes
from outside. `Operation.adopt` attaches a call: the qubits that it targets become targets of the
caller, so that an operation covers every qubit that is touched below it.

An execution path is a finished trace: its qubits and its outermost operations. -/

namespace CircuitTrace

/-- One invocation of a gate with everything that it called. -/
structure Operation where
  /-- The label of the gate. -/
  gate : String
  /-- The arguments of the gate other than qubits, as text in round brackets. -/
  displayArgs : Option String
  /-- The calls, in order. -/
  children : Option (List Operation)
  /-- The gate acts under the condition that its controls hold. -/
  isControlled : Bool
  /-- The gate acts backwards. -/
  isAdjoint : Bool
  /-- The operation is a measurement. -/
  isMeasurement : Bool
  /-- The registers that are only read. -/
  controls : List Register
  /-- The registers that are acted on. -/
  targets : List Register

namespace Operation

/-! ### Equality -/

mutual

/-- Decides whether two operations are equal. -/
def decEq : (a b : Operation) → Decidable (a = b)
  | ⟨gate, args, children, isControlled, isAdjoint, isMeasurement, controls, targets⟩,
    ⟨gate', args', children', isControlled', isAdjoint', isMeasurement', controls', targets'⟩ =>
    match decEqChildren children children' with
    | isFalse h => isFalse fun e => h (by injection e)
    | isTrue h =>
      decidable_of_iff
        (gate = gate' ∧ args = args' ∧ isControlled = isControlled' ∧ isAdjoint = isAdjoint' ∧
          isMeasurement = isMeasurement' ∧ controls = controls' ∧ targets = targets')
        (by simp [h])

/-- Decides whether two lists of children, which may be missing, are equal. -/
def decEqChildren : (a b : Option (List Operation)) → Decidable (a = b)
  | none, none => isTrue rfl
  | none, some _ => isFalse (by simp)
  | some _, none => isFalse (by simp)
  | some a, some b =>
    match decEqAll a b with
    | isTrue h => isTrue (by rw [h])
    | isFalse h => isFalse fun e => h (by injection e)

/-- Decides whether two lists of operations are equal. -/
def decEqAll : (a b : List Operation) → Decidable (a = b)
  | [], [] => isTrue rfl
  | [], _ :: _ => isFalse (by simp)
  | _ :: _, [] => isFalse (by simp)
  | a :: as, b :: bs =>
    match decEq a b, decEqAll as bs with
    | isTrue h, isTrue h' => isTrue (by rw [h, h'])
    | isFalse h, _ => isFalse fun e => h (by injection e)
    | _, isFalse h => isFalse fun e => h (by injection e)

end

instance : DecidableEq Operation := decEq

/-! ### Building operations -/

/-- An operation of which only the label is known. -/
def ofGate (gate : String) : Operation := ⟨gate, none, none, false, false, false, [], []⟩

/-- The calls, of which there may be none. -/
def calls (op : Operation) : List Operation := op.children.getD []

/-- The operation has a list of children, be it empty. -/
def hasChildren (op : Operation) : Bool := op.children.isSome

/-- The operation is an X under control, which is how a CNOT is reported. -/
def isControlledX (op : Operation) : Bool := op.gate = "X" && op.isControlled

/-- Targets with one more behind them, unless it is a classical bit or among them. -/
def coverTarget (targets : List Register) (r : Register) : List Register :=
  if r.isClassical || targets.contains r then targets else targets ++ [r]

/-- The operation with one more call, the qubit targets of which it covers. -/
def adopt (op child : Operation) : Operation :=
  { op with
    targets := child.targets.foldl coverTarget op.targets
    children := some (op.calls ++ [child]) }

/-- Registers in short form, with commas between them. -/
def registerList (rs : List Register) : String := String.intercalate "," (rs.map Register.label)

/-- The operation in short form. -/
def label (op : Operation) : String :=
  op.gate ++ (if op.isAdjoint then "'" else "") ++ op.displayArgs.getD "" ++
    (if op.controls.isEmpty then "" else " ctrl[" ++ registerList op.controls ++ "]") ++
    " [" ++ registerList op.targets ++ "]"

end Operation

/-- A finished trace. -/
structure ExecutionPath where
  /-- The qubits, in increasing order when the path comes from a tracer. -/
  qubits : List QubitDeclaration
  /-- The outermost operations, in the order of their calls. -/
  operations : List Operation
  deriving DecidableEq

/-- The number of qubits of a trace. -/
def ExecutionPath.numQubits (p : ExecutionPath) : Nat := p.qubits.length

end CircuitTrace
