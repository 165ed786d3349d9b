import CircuitTrace.Register.Basic

/-! # Allocating registers

The allocator of a trace knows the qubits that were mentioned, each once and in increasing order,
and the measurements that were made, in their order. A measurement of a qubit writes the classical
bit whose number is the count of the earlier measurements of that qubit, so the bits of a qubit are
numbered without gaps and different qubits do not disturb each other. -/

namespace CircuitTrace

/-- A qubit of a trace, with the number of classical bits that its measurements wrote. -/
structure QubitDeclaration where
  /-- The number of the qubit. -/
  id : Nat
  /-- The number of its classical bits. -/
  numChildren : Nat
  deriving DecidableEq

/-- No classical bit of a qubit has been written. -/
structure NoClassicalRegister where
  /-- The qubit. -/
  qubit : Nat
  deriving DecidableEq

/-- The report that no classical bit of a qubit has been written. -/
def NoClassicalRegister.message (e : NoClassicalRegister) : String :=
  "No classical registers found for qubit " ++ toString e.qubit

/-- A number put into an increasing list, in which every number stands once. -/
def insertOnce (q : Nat) : List Nat → List Nat
  | [] => [q]
  | p :: ps => if q < p then q :: p :: ps else if q = p then p :: ps else p :: insertOnce q ps

/-- The registers of a trace. -/
structure Allocator where
  /-- The qubits that were mentioned, in increasing order. -/
  qubits : List Nat
  /-- The measured qubits, in the order of the measurements. -/
  measured : List Nat
  deriving DecidableEq

namespace Allocator

/-- The allocator of a trace that has not begun. -/
def empty : Allocator := ⟨[], []⟩

/-- Mentions a qubit. -/
def mention (a : Allocator) (q : Nat) : Allocator := { a with qubits := insertOnce q a.qubits }

/-- Mentions qubits one after the other. -/
def mentionAll (a : Allocator) (qs : List Nat) : Allocator := qs.foldl mention a

/-- The register of a qubit, which is mentioned by asking for it. -/
def registerFor (a : Allocator) (q : Nat) : Register × Allocator := (.qubit q, a.mention q)

/-- The registers of qubits, which are mentioned in their order. -/
def registersFor (a : Allocator) (qs : List Nat) : List Register × Allocator :=
  (qs.map .qubit, a.mentionAll qs)

/-- The number of classical bits of a qubit. -/
def classicalCount (a : Allocator) (q : Nat) : Nat := a.measured.count q

/-- The classical bit that the next measurement of a qubit writes. -/
def allocateClassical (a : Allocator) (q : Nat) : Register × Allocator :=
  (.classical q (a.classicalCount q), { a with measured := a.measured ++ [q] })

/-- The classical bit that the last measurement of a qubit wrote. -/
def latestClassical (a : Allocator) (q : Nat) : Except NoClassicalRegister Register :=
  match a.classicalCount q with
  | 0 => .error ⟨q⟩
  | n + 1 => .ok (.classical q n)

/-- The qubits that were mentioned, in increasing order. -/
def declarations (a : Allocator) : List QubitDeclaration :=
  a.qubits.map fun q => ⟨q, a.classicalCount q⟩

end Allocator

end CircuitTrace
