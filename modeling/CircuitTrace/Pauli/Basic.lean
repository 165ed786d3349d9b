import CircuitTrace.Text.Blank

/-! # Pauli operators

The four single-qubit Pauli operators, as they are named in the arguments of gates: by a letter of
either case, alone or behind the word `Pauli`, with blanks around (`Pauli.ofText`). A text that
names none of them is reported by `UnknownPauli`. -/

namespace CircuitTrace

/-- A single-qubit Pauli operator. -/
inductive Pauli where
  /-- The identity. -/
  | I
  /-- The bit flip. -/
  | X
  /-- The phase flip. -/
  | Z
  /-- Both flips. -/
  | Y
  deriving DecidableEq

/-- A text that names no Pauli operator, as far as it was understood. -/
structure UnknownPauli where
  /-- The text or letter that was taken for a name. -/
  shown : String
  deriving DecidableEq

/-- The report of a text that names no Pauli operator. -/
def UnknownPauli.message (e : UnknownPauli) : String := "Cannot convert " ++ e.shown ++ " to Pauli"

namespace Pauli

/-- The letter that stands for the operator. -/
def letter : Pauli → String
  | I => "I"
  | X => "X"
  | Z => "Z"
  | Y => "Y"

/-- The operator is the identity. -/
def isIdentity (p : Pauli) : Bool := p = I

/-- The operator that a letter of either case stands for. A letter that stands for none is reported
in lower case. -/
def ofLetter (c : Char) : Except UnknownPauli Pauli :=
  match c.toLower with
  | 'i' => .ok I
  | 'x' => .ok X
  | 'z' => .ok Z
  | 'y' => .ok Y
  | d => .error ⟨String.singleton d⟩

/-- The text without the word `Pauli` in front of it. -/
def withoutWord : List Char → List Char
  | 'P' :: 'a' :: 'u' :: 'l' :: 'i' :: s => s
  | s => s

/-- The operator that a text names. -/
def ofText (s : List Char) : Except UnknownPauli Pauli :=
  match withoutWord (Text.trim s) with
  | [c] => ofLetter c
  | _ => .error ⟨String.ofList (Text.trim s)⟩

/-- The operator drawn by a random word of 32 bits, which is decided by its two highest bits. -/
def ofWord (w : UInt32) : Pauli :=
  match (w >>> 30).toNat with
  | 0 => I
  | 1 => Z
  | 2 => X
  | _ => Y

end Pauli

end CircuitTrace
