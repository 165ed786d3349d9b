import CircuitTrace.Log
import CircuitTrace.Notification.Basic
import CircuitTrace.Operation.Basic

/-! # Capturing a trace

A tracer turns the notifications of a simulator into an execution path. It keeps the operations that
have started and not ended on a stack, the innermost one first. An operation of which nothing is
known is on the stack as an *absent* entry, so that the end of every operation finds its own entry:

* an operation is absent if it starts directly under a measurement, if it carries no metadata, if
  asking for them failed, or if it is a measurement that names no qubit;
* an operation that ends is adopted by the one below it (`Operation.adopt`), unless one of the two
  is absent or both are an X under control, of which the inner one is the outer one told twice;
* the outermost operation does not end, so that the path is there when the trace is cut off.

Each notification leads to a list of *reports* (`Tracer.step`), in the order in which things happen:
records for the log, and the operations that are seen to start and to end, with their place on the
stack, the outermost being at depth 1. Absent entries are never reported. -/

namespace CircuitTrace

/-- What a tracer tells while it captures a trace. -/
inductive Report where
  /-- A record for the log. -/
  | logged (record : LogRecord)
  /-- An operation starts. Its calls are not known yet. -/
  | started (op : Operation) (depth : Nat)
  /-- An operation ends, with its calls attached. -/
  | ended (op : Operation) (depth : Nat)
  deriving DecidableEq

/-- A measurement that names no qubit. -/
structure MeasurementWithoutTarget where
  /-- The label of the gate. -/
  gate : String
  deriving DecidableEq

/-- The report of a measurement that names no qubit. -/
def MeasurementWithoutTarget.message (e : MeasurementWithoutTarget) : String :=
  "Measurement " ++ e.gate ++ " has no target qubit"

/-- The arguments of a gate in round brackets. No arguments are none, and arguments that open with a
bracket have theirs. -/
def formatArgs (args : String) : Option String :=
  match args.toList with
  | [] => none
  | '(' :: _ => some args
  | _ => some ("(" ++ args ++ ")")

/-- The operation that metadata describe, and the allocator after it. The controls are mentioned
before the targets. A measurement reads the qubits that it is reported to target and writes the next
classical bit of the first of them. -/
def Metadata.operation (m : Metadata) (a : Allocator) :
    Except MeasurementWithoutTarget (Operation × Allocator) :=
  let (controls, a₁) := a.registersFor m.controls
  let (targets, a₂) := a₁.registersFor m.targets
  let op : Operation :=
    ⟨m.label, formatArgs m.formattedNonQubitArgs, none, m.isControlled, m.isAdjoint, false,
      controls, targets⟩
  if m.isMeasurement then
    match m.targets with
    | [] => .error ⟨m.label⟩
    | q :: _ =>
      let (bit, a₃) := a₂.allocateClassical q
      .ok ({ op with isMeasurement := true, controls := targets, targets := [bit] }, a₃)
  else .ok (op, a₂)

/-- A trace that is being captured. -/
structure Tracer where
  /-- The registers of the operations so far. -/
  registers : Allocator
  /-- The operations that have started and not ended, the innermost first. -/
  stack : List (Option Operation)
  deriving DecidableEq

namespace Tracer

/-- A trace that has not begun. -/
def empty : Tracer := ⟨.empty, []⟩

/-- The number of operations that have started and not ended, absent ones included. -/
def depth (t : Tracer) : Nat := t.stack.length

/-- A record of the tracer for the log. -/
def record (level : LogLevel) (message : String) : Report := .logged ⟨level, .capture, message⟩

/-- The innermost open operation is a measurement. -/
def underMeasurement (t : Tracer) : Bool :=
  match t.stack with
  | some op :: _ => op.isMeasurement
  | _ => false

/-- The stack entry of an operation that starts, the allocator after it, and what is told about
it. -/
def entry (t : Tracer) (source : Source) : Option Operation × Allocator × List Report :=
  if t.underMeasurement then
    (none, t.registers, [record .trace "Skipping operation nested in a measurement"])
  else
    match source with
    | .error reason =>
      (none, t.registers, [record .debug ("Could not retrieve runtime metadata: " ++ reason)])
    | .ok none => (none, t.registers, [])
    | .ok (some m) =>
      match m.operation t.registers with
      | .error e => (none, t.registers, [record .debug ("Dropping operation: " ++ e.message)])
      | .ok (op, a) => (some op, a, [])

/-- The report that a stack entry starts, if it is not absent. -/
def startReport (depth : Nat) : Option Operation → List Report
  | none => []
  | some op => [.started op depth]

/-- The stack entry in short form. -/
def entryLabel : Option Operation → String
  | none => "<absent>"
  | some op => op.label

/-- An operation starts. -/
def start (t : Tracer) (source : Source) : Tracer × List Report :=
  let (op, a, told) := t.entry source
  (⟨a, op :: t.stack⟩,
    told ++
      record .trace ("Start at depth " ++ toString t.depth ++ ": " ++ entryLabel op) ::
        startReport (t.depth + 1) op)

/-- The innermost operation ends. -/
def finish (t : Tracer) : Tracer × List Report :=
  match t.stack with
  | some op :: some parent :: rest =>
    let told := Report.ended op (rest.length + 2)
    if op.isControlledX && parent.isControlledX then
      ({ t with stack := some parent :: rest },
        [told, record .trace "Collapsing nested controlled X"])
    else ({ t with stack := some (parent.adopt op) :: rest }, [told])
  | some op :: none :: rest =>
    ({ t with stack := none :: rest }, [.ended op (rest.length + 2)])
  | none :: parent :: rest => ({ t with stack := parent :: rest }, [])
  | _ => (t, [])

/-- A notification comes in. -/
def step (t : Tracer) : Notification → Tracer × List Report
  | .start source => t.start source
  | .finish => t.finish

/-- The trace after a list of notifications. -/
def replay (t : Tracer) (ns : List Notification) : Tracer := ns.foldl (fun t n => (t.step n).1) t

/-- The path captured so far: the operations that are still open stand side by side. -/
def executionPath (t : Tracer) : ExecutionPath :=
  ⟨t.registers.declarations, t.stack.reverse.filterMap id⟩

end Tracer

end CircuitTrace
