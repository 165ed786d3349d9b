import CircuitTrace.Operation.Basic

/-! # The qubits of an operation

A gate of a script acts on distinct qubits. The registers of an operation may repeat a qubit, name a
classical bit, which stands for the qubit that was measured, and have a qubit both as a control and
as a target, which then is a control only. -/

namespace CircuitTrace

/-- A number behind others, unless it is among them. -/
def addOnce (seen : List Nat) (q : Nat) : List Nat := if seen.contains q then seen else seen ++ [q]

/-- The numbers of a list without repetition, each where it stands first. -/
def firstSeen (qs : List Nat) : List Nat := qs.foldl addOnce []

namespace Operation

/-- The qubits that control the operation. -/
def controlQubits (op : Operation) : List Nat := firstSeen (op.controls.map Register.qubitId)

/-- The qubits that the operation acts on, when some are not counted. -/
def targetQubits (op : Operation) (except : List Nat) : List Nat :=
  firstSeen ((op.targets.map Register.qubitId).filter fun q => !except.contains q)

/-- The qubits that the operation acts on, those that also control it included. -/
def ownQubits (op : Operation) : List Nat := op.targetQubits []

/-- The qubits that the operation acts on without controlling it. -/
def actedQubits (op : Operation) : List Nat := op.targetQubits op.controlQubits

end Operation

end CircuitTrace
