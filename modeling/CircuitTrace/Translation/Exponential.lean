import CircuitTrace.Gate.Clifford
import CircuitTrace.Operation.Wires
import CircuitTrace.Translation.Failure

/-! # Pauli exponentials

The exponential `exp(-i θ P₁ ⊗ P₂ ⊗ …)` is expressed by a rotation about the z axis of one qubit,
the *pivot*, between two blocks of Clifford gates that undo each other. The first block maps every
factor onto Z, qubit by qubit (`enterBasis`), and gathers the parity of the other qubits on the
pivot by a ladder of controlled flips; the second block runs backwards (`leaveBasis`). Qubits whose
factor is the identity take no part. If no factor is left, there is only a global phase, which is
kept as a comment. -/

namespace CircuitTrace

/-- The gates of a Clifford element on qubits. -/
def cliffordPrimitives (index : Nat) (correction : Pauli) (qubits controls : List Nat) :
    List Primitive :=
  (cliffordGates index correction).map fun symbol => .gate symbol qubits controls

/-- The gates that map a factor onto Z. -/
def enterBasis (qubit : Nat) : Pauli → List Primitive
  | .X => cliffordPrimitives 1 .I [qubit] []
  | .Y => cliffordPrimitives 4 .Z [qubit] []
  | .Z | .I => []

/-- The gates that map Z back onto a factor. -/
def leaveBasis (qubit : Nat) : Pauli → List Primitive
  | .X => cliffordPrimitives 1 .I [qubit] []
  | .Y => cliffordPrimitives 3 .I [qubit] []
  | .Z | .I => []

/-- The flip of the pivot under the control of a qubit. -/
def parityFlip (pivot qubit : Nat) : Primitive := .gate "CX" [qubit, pivot] []

/-- The gates in front of the rotation. -/
def gatherParity (pivot : Nat) (others : List Nat) (factors : List (Nat × Pauli)) :
    List Primitive :=
  (factors.flatMap fun f => enterBasis f.1 f.2) ++ others.map (parityFlip pivot)

/-- The gates behind the rotation. -/
def scatterParity (pivot : Nat) (others : List Nat) (factors : List (Nat × Pauli)) :
    List Primitive :=
  others.reverse.map (parityFlip pivot) ++ factors.reverse.flatMap fun f => leaveBasis f.1 f.2

/-- The factors of an exponential that take part in it, with their qubits. -/
def activeFactors (qubits : List Nat) (basis : List Pauli) : List (Nat × Pauli) :=
  (qubits.zip basis).filter fun f => !f.2.isIdentity

/-- The gates of an exponential on qubits. -/
def exponentialPrimitives (qubits : List Nat) (args : ExponentialArgs) :
    Except ArgumentFault (List Primitive) :=
  let angle : Angle := .literal ("-2.0*" ++ args.angle)
  if args.basis.length ≠ qubits.length then
    .error (.lengthMismatch args.basis.length qubits.length)
  else
    match activeFactors qubits args.basis, qubits with
    | (pivot, p) :: rest, _ =>
      .ok (gatherParity pivot (rest.map Prod.fst) ((pivot, p) :: rest) ++
        [⟨.rotation 'z' angle pivot, []⟩] ++
        scatterParity pivot (rest.map Prod.fst) ((pivot, p) :: rest))
    | [], qubit :: _ => .ok [⟨.rotation 'i' angle qubit, []⟩]
    | [], [] => .error .noTargets

end CircuitTrace
