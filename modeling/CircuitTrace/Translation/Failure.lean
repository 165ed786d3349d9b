import CircuitTrace.Gate.Arguments
import CircuitTrace.Text.Quoted

/-! # What stops a translation

A translation ends with an error when the operations cannot be expressed: one has no primitive gates
and the options are strict, or the arguments of one make no sense. It is *broken off* when an
operation does not keep to the contract between a simulator and a tracer, by which a measurement
and a reset act on one qubit each. -/

namespace CircuitTrace

/-- An operation cannot be expressed. -/
inductive TranslationError where
  /-- The operation has no primitive gates. -/
  | unsupported (gate : String)
  /-- The arguments of the operation make no sense. -/
  | malformed (gate : String) (args : Option String) (fault : ArgumentFault)
  deriving DecidableEq

namespace TranslationError

/-- The report of an operation that cannot be expressed. -/
def message : TranslationError → String
  | unsupported gate =>
    "Operation " ++ gate ++ " does not call any primitive gate using this simulator. " ++
      "(Try a tracing simulator?)"
  | malformed gate args fault =>
    "Cannot decompose " ++ gate ++ " with arguments " ++ Text.quotedOption args ++ ": " ++
      fault.reason

/-- The name and the data of the error. -/
def describe : TranslationError → String
  | unsupported gate => "UnsupportedOperation(" ++ Text.quoted gate ++ ")"
  | malformed gate args fault =>
    "MalformedArguments \x7b gate: " ++ Text.quoted gate ++ ", args: " ++ Text.quotedOption args ++
      ", reason: " ++ Text.quoted fault.reason ++ " \x7d"

end TranslationError

/-- An operation that has to act on one qubit and does not. -/
inductive Breach where
  /-- A measurement of the given number of qubits. -/
  | measurement (qubits : Nat)
  /-- A reset of the given number of qubits. -/
  | reset (qubits : Nat)
  deriving DecidableEq

namespace Breach

/-- The first line of the report of a broken contract. -/
def headline : Breach → String
  | measurement _ =>
    "assertion \x60left == right\x60 failed: Measurement op on multiple qubits, expecting one"
  | reset _ => "assertion \x60left == right\x60 failed: Reset op on multiple qubits, expecting one"

/-- The number of qubits that the operation acts on. -/
def qubits : Breach → Nat
  | measurement n => n
  | reset n => n

/-- The report of a broken contract. -/
def message (b : Breach) : String :=
  b.headline ++ "\n  left: 1\n right: " ++ toString b.qubits

end Breach

/-- What stops a translation. -/
inductive Halt where
  /-- An operation cannot be expressed. -/
  | error (e : TranslationError)
  /-- An operation breaks the contract. -/
  | breach (b : Breach)
  deriving DecidableEq

end CircuitTrace
