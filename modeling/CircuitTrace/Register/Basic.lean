/-! # Registers

A register is a wire of the traced circuit: a qubit, or the classical bit that holds the outcome of
one of the measurements of a qubit. The measurements of a qubit are counted from zero. -/

namespace CircuitTrace

/-- A wire of the traced circuit. -/
inductive Register where
  /-- The qubit of a number. -/
  | qubit (q : Nat)
  /-- The classical bit of the measurement `c` of the qubit `q`. -/
  | classical (q c : Nat)
  deriving DecidableEq

namespace Register

/-- The qubit that a register belongs to: for a classical bit, the qubit that was measured. -/
def qubitId : Register → Nat
  | qubit q => q
  | classical q _ => q

/-- The number of the measurement that a classical bit holds. -/
def classicalId? : Register → Option Nat
  | qubit _ => none
  | classical _ c => some c

/-- The register is a classical bit. -/
def isClassical : Register → Bool
  | qubit _ => false
  | classical _ _ => true

/-- The register in short form. -/
def label : Register → String
  | qubit q => "q" ++ toString q
  | classical q c => "c" ++ toString q ++ "." ++ toString c

end Register

end CircuitTrace
