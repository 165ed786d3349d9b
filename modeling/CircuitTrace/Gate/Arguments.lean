import CircuitTrace.Pauli.Basic
import CircuitTrace.Script.Instruction
import CircuitTrace.Text.Pieces
import CircuitTrace.Text.Word

/-! # Arguments of gates

The arguments of a gate are a tuple: a text in round brackets whose components stand between commas.
Three kinds of gates have arguments:

* a Clifford element, `(3, PauliX)`: an index and a Pauli operator;
* a rotation, `(PauliZ, 0.5)` or `(PauliZ, 1, 3)`: an axis and an angle, the angle as an expression
  or as a numerator and an exponent;
* a Pauli exponential, `([PauliX, PauliI], 0.5)`: a list of Pauli operators and an angle.

An index is made of digits and a name of word characters, with blanks around. An expression is any
text without a comma that is not empty; it is taken without the blanks around it, and an expression
of blanks alone is its last blank (`expression?`). -/

namespace CircuitTrace

open Text

/-- What is wrong with the arguments of a gate, or does not fit its targets. -/
inductive ArgumentFault where
  /-- There are no arguments. -/
  | missing
  /-- They are not those of a Clifford element. -/
  | notClifford
  /-- The index of a Clifford element is no number below 256. -/
  | indexOutOfRange
  /-- They are not those of a rotation. -/
  | notRotation
  /-- They are not those of a Pauli exponential. -/
  | notExponential
  /-- A name stands for no Pauli operator. -/
  | unknownPauli (e : UnknownPauli)
  /-- A rotation has no qubit to act on. -/
  | rotationWithoutTarget
  /-- A Pauli exponential has not one operator for each qubit. -/
  | lengthMismatch (paulis qubits : Nat)
  /-- A Pauli exponential has no qubit to act on. -/
  | noTargets
  deriving DecidableEq

/-- The reason that is given for a fault. -/
def ArgumentFault.reason : ArgumentFault → String
  | missing => "missing arguments"
  | notClifford => "expected (index, Pauli)"
  | indexOutOfRange => "Clifford index out of range"
  | notRotation => "expected (axis, angle) or (axis, numerator, power)"
  | notExponential => "expected ([Pauli, ...], angle)"
  | unknownPauli e => e.message
  | rotationWithoutTarget => "rotation without target qubit"
  | lengthMismatch paulis qubits =>
    toString paulis ++ " Paulis for " ++ toString qubits ++ " target qubits"
  | noTargets => "no target qubits"

/-- The text of a component that must be made of characters of one class. -/
def wordOf? (member : Char → Bool) (s : List Char) : Option (List Char) :=
  let word := trim s
  if !word.isEmpty && word.all member then some word else none

/-- The expression that a component is. -/
def expression? (s : List Char) : Option String :=
  match s.getLast? with
  | none => none
  | some last => some (String.ofList (if (trim s).isEmpty then [last] else trim s))

/-- The arguments that must be there. -/
def requireArgs (args : Option String) : Except ArgumentFault (List Char) :=
  match args with
  | none => .error .missing
  | some s => .ok s.toList

/-! ### Clifford elements -/

/-- The arguments of a Clifford element. -/
structure CliffordArgs where
  /-- The index. -/
  index : Nat
  /-- The correction. -/
  pauli : Pauli
  deriving DecidableEq

namespace CliffordArgs

/-- The texts of the index and of the operator. -/
def parts? (s : List Char) : Option (List Char × List Char) :=
  match (unbracket s).map (pieces ',') with
  | some [index, pauli] =>
    match wordOf? isDecimalDigit index, wordOf? isWordChar pauli with
    | some index, some pauli => some (index, pauli)
    | _, _ => none
  | _ => none

/-- The index that digits write, if it is below 256. -/
def index? (digits : List Char) : Option Nat :=
  match asciiNumber? digits with
  | some n => if n < 256 then some n else none
  | none => none

/-- The arguments that a text holds. -/
def ofText (s : List Char) : Except ArgumentFault CliffordArgs :=
  match parts? s with
  | none => .error .notClifford
  | some (index, pauli) =>
    match index? index with
    | none => .error .indexOutOfRange
    | some index =>
      match Pauli.ofText pauli with
      | .error e => .error (.unknownPauli e)
      | .ok pauli => .ok ⟨index, pauli⟩

/-- The arguments of a Clifford element. -/
def parse (args : Option String) : Except ArgumentFault CliffordArgs :=
  match requireArgs args with
  | .error e => .error e
  | .ok s => ofText s

end CliffordArgs

/-! ### Rotations -/

/-- The arguments of a rotation. -/
structure RotationArgs where
  /-- The letter of the axis, in lower case; `i` stands for the identity. -/
  axis : Char
  /-- The angle. -/
  angle : Angle
  deriving DecidableEq

namespace RotationArgs

/-- The angle that the components behind the axis give. -/
def angle? : List (List Char) → Option Angle
  | [angle] => (expression? angle).map .literal
  | [numerator, exponent] =>
    match expression? numerator, expression? exponent with
    | some numerator, some exponent => some (.dyadic numerator exponent)
    | _, _ => none
  | _ => none

/-- The axis that a component names, by the last character of its word. -/
def axis? (s : List Char) : Option Char :=
  match wordOf? isWordChar s with
  | none => none
  | some word => word.getLast?.map Char.toLower

/-- The arguments that a text holds. -/
def ofText (s : List Char) : Except ArgumentFault RotationArgs :=
  match (unbracket s).map (pieces ',') with
  | some (axis :: rest) =>
    match axis? axis, angle? rest with
    | some axis, some angle => .ok ⟨axis, angle⟩
    | _, _ => .error .notRotation
  | _ => .error .notRotation

/-- The arguments of a rotation. -/
def parse (args : Option String) : Except ArgumentFault RotationArgs :=
  match requireArgs args with
  | .error e => .error e
  | .ok s => ofText s

end RotationArgs

/-! ### Pauli exponentials -/

/-- The arguments of a Pauli exponential. -/
structure ExponentialArgs where
  /-- The operators, one for each qubit. -/
  basis : List Pauli
  /-- The angle. -/
  angle : String
  deriving DecidableEq

namespace ExponentialArgs

/-- The operators that texts name, up to the first one that names none. -/
def paulis : List (List Char) → Except UnknownPauli (List Pauli)
  | [] => .ok []
  | s :: rest =>
    match Pauli.ofText s with
    | .error e => .error e
    | .ok p => (paulis rest).map (p :: ·)

/-- The operators of a list in square brackets. Components of blanks alone do not count. -/
def basisOf (s : List Char) : Except UnknownPauli (List Pauli) :=
  paulis ((pieces ',' s).filter fun p => !(trim p).isEmpty)

/-- The texts of the list and of the angle. -/
def parts? (s : List Char) : Option (List Char × String) :=
  match (unbracket s).map trimLeft with
  | some ('[' :: inner) =>
    match cutFirst ']' inner with
    | some (list, rest) =>
      match trimLeft rest with
      | ',' :: angle =>
        if angle.contains ',' then none else (expression? angle).map fun angle => (list, angle)
      | _ => none
    | none => none
  | _ => none

/-- The arguments that a text holds. -/
def ofText (s : List Char) : Except ArgumentFault ExponentialArgs :=
  match parts? s with
  | none => .error .notExponential
  | some (list, angle) =>
    match basisOf list with
    | .error e => .error (.unknownPauli e)
    | .ok basis => .ok ⟨basis, angle⟩

/-- The arguments of a Pauli exponential. -/
def parse (args : Option String) : Except ArgumentFault ExponentialArgs :=
  match requireArgs args with
  | .error e => .error e
  | .ok s => ofText s

end ExponentialArgs

end CircuitTrace
