/-! # Gate classes

The label of a gate decides how the gate is written. Labels outside the table have no class: such an
operation is expanded into its calls, or reported when it has none. Two labels without a class have
a meaning of their own (`exponentialLabel`, `phaseMarkerLabel`). -/

namespace CircuitTrace

/-- The ways of writing a gate. -/
inductive GateClass where
  /-- The label itself is a primitive gate. -/
  | passThrough
  /-- A single-qubit Clifford element, given by an index and a Pauli operator. -/
  | clifford
  /-- A controlled flip whose control is its first target. -/
  | canonicalCx
  /-- A rotation about an axis. -/
  | rotation
  /-- The measurement of one qubit. -/
  | measurement
  /-- The reset of one qubit. -/
  | reset
  /-- A gate that does nothing. -/
  | noOp
  deriving DecidableEq

namespace GateClass

/-- The name of a class. -/
def name : GateClass → String
  | passThrough => "PassThrough"
  | clifford => "Clifford"
  | canonicalCx => "CanonicalCx"
  | rotation => "Rotation"
  | measurement => "Measurement"
  | reset => "Reset"
  | noOp => "NoOp"

/-- The class of a label. -/
def classify (label : String) : Option GateClass :=
  match label with
  | "X" | "Y" | "Z" | "H" | "S" | "T" | "CZ" | "CNOT" | "SWAP" | "CCNOT" | "CCX" | "CCZ" =>
    some passThrough
  | "Interface_Clifford" => some clifford
  | "Interface_CX" => some canonicalCx
  | "Interface_RFrac" | "Interface_R" | "R" => some rotation
  | "M" | "Measure" => some measurement
  | "Reset" => some reset
  | "NoOp" => some noOp
  | _ => none

end GateClass

/-- The label of a Pauli exponential, which some simulators run without any calls. -/
def exponentialLabel : String := "Exp"

/-- The label of a marker that may do nothing at all. -/
def phaseMarkerLabel : String := "PauliZFlip"

end CircuitTrace
