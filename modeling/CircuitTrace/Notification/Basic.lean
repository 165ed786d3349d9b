/-! # Notifications

A simulator notifies a tracer of every operation twice: when it starts and when it ends. At the
start it may be asked what it knows of the operation, its *metadata*. Some operations carry none,
and asking may fail; the tracer takes both in its stride. An `Event` is a notification as it is
recorded, in which asking has not failed. -/

namespace CircuitTrace

/-- What a simulator knows of an operation that starts. -/
structure Metadata where
  /-- The label of the gate. -/
  label : String
  /-- The gate acts under the condition that its controls hold. -/
  isControlled : Bool
  /-- The gate acts backwards. -/
  isAdjoint : Bool
  /-- The operation is a measurement. -/
  isMeasurement : Bool
  /-- The qubits that are only read. -/
  controls : List Nat
  /-- The qubits that are acted on. -/
  targets : List Nat
  /-- The arguments other than qubits, as the simulator prints them. -/
  formattedNonQubitArgs : String
  deriving DecidableEq

namespace Metadata

/-- The metadata of an operation of which the label and the targets are known. -/
def ofTargets (label : String) (targets : List Nat) : Metadata :=
  ⟨label, false, false, false, [], targets, ""⟩

/-- The metadata with the given controls; the gate counts as controlled if there are any. -/
def withControls (m : Metadata) (controls : List Nat) : Metadata :=
  { m with isControlled := !controls.isEmpty, controls := controls }

/-- The metadata with the given arguments. -/
def withArgs (m : Metadata) (args : String) : Metadata := { m with formattedNonQubitArgs := args }

/-- The metadata of the gate that acts backwards. -/
def adjoint (m : Metadata) : Metadata := { m with isAdjoint := true }

/-- The metadata of a measurement. -/
def measurement (m : Metadata) : Metadata := { m with isMeasurement := true }

end Metadata

/-- The answer to the question for the metadata of an operation: the metadata, if it carries any, or
the reason why there is no answer. -/
abbrev Source := Except String (Option Metadata)

/-- What a simulator reports while it runs. -/
inductive Notification where
  /-- An operation starts. -/
  | start (source : Source)
  /-- The operation that started last and has not ended ends. -/
  | finish

/-- A notification as it is recorded. -/
inductive Event where
  /-- An operation starts, with the metadata that it carries. -/
  | start (metadata : Option Metadata)
  /-- The operation that started last and has not ended ends. -/
  | finish
  deriving DecidableEq

/-- The notification that an event records. -/
def Event.notification : Event → Notification
  | .start metadata => .start (.ok metadata)
  | .finish => .finish

end CircuitTrace
