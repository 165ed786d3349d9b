import CircuitTrace.Pauli.Basic

/-! # Single-qubit Clifford elements

A single-qubit Clifford element is given by an index and a Pauli correction. The correction comes
first, followed by one of five words in the gates H and S; every other index adds no gate. -/

namespace CircuitTrace

/-- The gates of a Pauli correction. -/
def correctionGates : Pauli → List String
  | .I => []
  | .X => ["X"]
  | .Y => ["Y"]
  | .Z => ["Z"]

/-- The word in H and S that an index stands for. -/
def cliffordWord : Nat → List String
  | 1 => ["H"]
  | 2 => ["S"]
  | 3 => ["H", "S"]
  | 4 => ["S", "H"]
  | 5 => ["H", "S", "H"]
  | _ => []

/-- The gates of a Clifford element, in the order in which they act. -/
def cliffordGates (index : Nat) (correction : Pauli) : List String :=
  correctionGates correction ++ cliffordWord index

end CircuitTrace
