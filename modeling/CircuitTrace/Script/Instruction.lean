/-! # Instructions of a script

An instruction is one gate of the script, and a *primitive* is an instruction under the control of
further qubits. A primitive that has no gate of its own in the script is written as a comment: an
operation that cannot be expressed, and a rotation about the identity axis `i`. All others have a
symbol, which the script has to import. -/

namespace CircuitTrace

/-- The angle of a rotation, as an expression of the script. -/
inductive Angle where
  /-- An expression that is taken over. -/
  | literal (text : String)
  /-- The exact angle `-π · numerator / 2 ^ (exponent - 1)`. -/
  | dyadic (numerator exponent : String)
  deriving DecidableEq

/-- The expression of an angle. -/
def Angle.render : Angle → String
  | literal text => text
  | dyadic numerator exponent => "-np.pi*" ++ numerator ++ "/(2**(" ++ exponent ++ "-1))"

/-- One gate of a script. -/
inductive Instruction where
  /-- A gate that is named by its symbol. -/
  | gate (symbol : String) (qubits : List Nat)
  /-- A rotation about an axis. -/
  | rotation (axis : Char) (angle : Angle) (qubit : Nat)
  /-- A measurement, whose outcome is stored under a key. -/
  | measure (qubit key : Nat)
  /-- An operation that cannot be expressed. -/
  | unhandled (label : String) (qubits : List Nat)
  deriving DecidableEq

/-- Qubits of the script, with commas between them. -/
def renderQubits (qubits : List Nat) : String :=
  String.intercalate ", " (qubits.map fun q => "qubits[" ++ toString q ++ "]")

namespace Instruction

/-- The symbol that the script imports for an instruction. Comments have none. -/
def symbol? : Instruction → Option String
  | gate symbol _ => some symbol
  | rotation axis _ _ => if axis = 'i' then none else some ("r" ++ String.singleton axis)
  | measure _ _ => some "measure"
  | unhandled _ _ => none

/-- The instruction is written as a comment. -/
def isComment (i : Instruction) : Bool := i.symbol?.isNone

/-- The qubits that the instruction acts on. -/
def qubits : Instruction → List Nat
  | gate _ qubits => qubits
  | rotation _ _ qubit => [qubit]
  | measure qubit _ => [qubit]
  | unhandled _ qubits => qubits

/-- The text of an instruction. -/
def render : Instruction → String
  | gate symbol qubits => symbol ++ "(" ++ renderQubits qubits ++ ")"
  | rotation axis angle qubit =>
    (if axis = 'i' then "#" else "") ++ "r" ++ String.singleton axis ++ "(rads=" ++ angle.render ++
      ").on(qubits[" ++ toString qubit ++ "])"
  | measure qubit key => "measure(qubits[" ++ toString qubit ++ "], key='" ++ toString key ++ "')"
  | unhandled label qubits => "#" ++ label ++ "(" ++ renderQubits qubits ++ ")"

end Instruction

/-- An instruction under the control of qubits. -/
structure Primitive where
  /-- The instruction. -/
  instruction : Instruction
  /-- The qubits that control it. -/
  controls : List Nat
  deriving DecidableEq

namespace Primitive

/-- A gate under control. -/
def gate (symbol : String) (qubits controls : List Nat) : Primitive :=
  ⟨.gate symbol qubits, controls⟩

/-- The text of a primitive. -/
def render (p : Primitive) : String :=
  p.instruction.render ++
    if p.controls.isEmpty then "" else ".controlled_by(" ++ renderQubits p.controls ++ ")"

end Primitive

end CircuitTrace
