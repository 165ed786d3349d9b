import CircuitTrace.Gate.Class
import CircuitTrace.Translation.Exponential

/-! # The primitives of one operation

What an operation is made of depends on the operation alone, except for the key under which a
measurement stores its outcome. An operation that cannot be expressed has no primitives at all. -/

namespace CircuitTrace

namespace Operation

/-- The error that the arguments of the operation make no sense. -/
def malformed (op : Operation) (fault : ArgumentFault) : Halt :=
  .error (.malformed op.gate op.displayArgs fault)

/-- The result of reading arguments as that of a translation. -/
def checked {α : Type} (op : Operation) : Except ArgumentFault α → Except Halt α
  | .ok x => .ok x
  | .error fault => .error (op.malformed fault)

/-- The only qubit of an operation that has to act on one. -/
def onlyQubit (op : Operation) (breach : Nat → Breach) : Except Halt Nat :=
  match op.ownQubits with
  | [q] => .ok q
  | qs => .error (.breach (breach qs.length))

/-- The primitives of a rotation. -/
def rotationPrimitives (op : Operation) : Except ArgumentFault (List Primitive) :=
  match RotationArgs.parse op.displayArgs with
  | .error e => .error e
  | .ok args =>
    match op.actedQubits with
    | [] => .error .rotationWithoutTarget
    | q :: _ => .ok [⟨.rotation args.axis args.angle q, op.controlQubits⟩]

/-- The primitives of an operation of a class; `key` is the key of the next measurement. -/
def classPrimitives (key : Nat) (op : Operation) : GateClass → Except Halt (List Primitive)
  | .passThrough => .ok [.gate op.gate op.actedQubits op.controlQubits]
  | .clifford =>
    op.checked <| (CliffordArgs.parse op.displayArgs).map fun args =>
      cliffordPrimitives args.index args.pauli op.actedQubits op.controlQubits
  | .canonicalCx => .ok [.gate "CX" op.actedQubits []]
  | .rotation => op.checked op.rotationPrimitives
  | .measurement => (op.onlyQubit .measurement).map fun q => [⟨.measure q key, []⟩]
  | .reset => (op.onlyQubit .reset).map fun q => [.gate "reset" [q] []]
  | .noOp => .ok []

/-- The primitives of a Pauli exponential without calls. -/
def exponential (op : Operation) : Except Halt (List Primitive) :=
  op.checked <|
    match ExponentialArgs.parse op.displayArgs with
    | .error e => .error e
    | .ok args => exponentialPrimitives op.ownQubits args

/-- The comment for an operation that cannot be expressed. -/
def unhandledPrimitive (op : Operation) : Primitive :=
  ⟨.unhandled op.gate op.actedQubits, op.controlQubits⟩

end Operation

end CircuitTrace
