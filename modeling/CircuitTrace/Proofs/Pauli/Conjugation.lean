import CircuitTrace.Pauli.Basic
import CircuitTrace.Script.Instruction
import Mathlib.NumberTheory.Zsqrtd.GaussianInt
import Mathlib.LinearAlgebra.Matrix.Kronecker

/-! # Conjugating Pauli operators by Clifford gates

A Clifford gate `U` turns a Pauli operator `P` into `U P U⁻¹`, which is a Pauli operator again, up
to its sign. A factor is given by what it flips, the bit or the phase (`Pauli.flipsBit`,
`Pauli.flipsPhase`), and every gate acts on the flips of one or two factors and on the sign
(`Pauli.through`, `Pauli.throughPair`). These tables are what the matrices of the gates say:
`through_matrix` and `throughPair_matrix` compare `U P` with `± P' U` over the Gaussian integers,
where the Hadamard gate may be taken without its factor `1 / √2`.

A *signed operator* is a sign and a factor for each qubit. `SignedPauli.conjugate` lets a primitive
of a script act on it, and `SignedPauli.conjugateAll` a list of them, in the order in which they are
written. Primitives that are not Clifford gates have no such action. -/

namespace CircuitTrace

namespace Pauli

/-! ### Gates on factors -/

/-- The operator flips the bit. -/
def flipsBit : Pauli → Bool
  | X | Y => true
  | I | Z => false

/-- The operator flips the phase. -/
def flipsPhase : Pauli → Bool
  | Z | Y => true
  | I | X => false

/-- The operator with the given flips. -/
def ofFlips : (bit phase : Bool) → Pauli
  | false, false => I
  | true, false => X
  | false, true => Z
  | true, true => Y

/-- **The action of a gate on one factor**: whether the sign changes, and the new factor. -/
def through (P : Pauli) : String → Option (Bool × Pauli)
  | "X" => some (P.flipsPhase, P)
  | "Y" => some (P.flipsBit != P.flipsPhase, P)
  | "Z" => some (P.flipsBit, P)
  | "H" => some (P.flipsBit && P.flipsPhase, ofFlips P.flipsPhase P.flipsBit)
  | "S" => some (P.flipsBit && P.flipsPhase, ofFlips P.flipsBit (P.flipsPhase != P.flipsBit))
  | _ => none

/-- The action of a controlled flip on the factors of its control and its target. -/
def throughFlip (P Q : Pauli) : Bool × Pauli × Pauli :=
  (P.flipsBit && Q.flipsPhase && (Q.flipsBit == P.flipsPhase),
    ofFlips P.flipsBit (P.flipsPhase != Q.flipsPhase),
    ofFlips (Q.flipsBit != P.flipsBit) Q.flipsPhase)

/-- **The action of a gate on two factors**, of which the first belongs to the control of a
controlled flip. -/
def throughPair (P Q : Pauli) : String → Option (Bool × Pauli × Pauli)
  | "CX" | "CNOT" => some (P.throughFlip Q)
  | "CZ" =>
    some (P.flipsBit && Q.flipsBit && (P.flipsPhase != Q.flipsPhase),
      ofFlips P.flipsBit (P.flipsPhase != Q.flipsBit),
      ofFlips Q.flipsBit (Q.flipsPhase != P.flipsBit))
  | "SWAP" => some (false, Q, P)
  | _ => none

/-! ### The matrices behind the tables -/

open Matrix Kronecker

/-- The imaginary unit. -/
def unit : GaussianInt := ⟨0, 1⟩

/-- The matrix of an operator. -/
def matrix : Pauli → Matrix (Fin 2) (Fin 2) GaussianInt
  | I => !![1, 0; 0, 1]
  | X => !![0, 1; 1, 0]
  | Y => !![0, -unit; unit, 0]
  | Z => !![1, 0; 0, -1]

/-- The matrix of a gate on one qubit, up to a factor. -/
def gateMatrix : String → Matrix (Fin 2) (Fin 2) GaussianInt
  | "X" => matrix X
  | "Y" => matrix Y
  | "Z" => matrix Z
  | "H" => !![1, 1; 1, -1]
  | "S" => !![1, 0; 0, unit]
  | _ => 0

/-- The matrix of a gate on two qubits. -/
def pairMatrix : String → Matrix (Fin 2 × Fin 2) (Fin 2 × Fin 2) GaussianInt
  | "CX" | "CNOT" => fun r c => if r.1 = c.1 ∧ r.2 = c.1 + c.2 then 1 else 0
  | "CZ" => fun r c => if r = c then (if r = (1, 1) then -1 else 1) else 0
  | "SWAP" => fun r c => if r = c.swap then 1 else 0
  | _ => 0

/-- The number of a sign. -/
def sign (negative : Bool) : GaussianInt := if negative then -1 else 1

theorem through_matrix {P Q : Pauli} {symbol : String} {negative : Bool}
    (h : P.through symbol = some (negative, Q)) :
    gateMatrix symbol * P.matrix = sign negative • (Q.matrix * gateMatrix symbol) := by
  unfold through at h
  split at h <;> cases h
  all_goals cases P <;> decide +kernel

theorem throughPair_matrix {P Q P' Q' : Pauli} {symbol : String} {negative : Bool}
    (h : P.throughPair Q symbol = some (negative, P', Q')) :
    pairMatrix symbol * (P.matrix ⊗ₖ Q.matrix) =
      sign negative • ((P'.matrix ⊗ₖ Q'.matrix) * pairMatrix symbol) := by
  unfold throughPair at h
  split at h <;> cases h
  all_goals cases P <;> cases Q <;> decide +kernel

end Pauli

/-! ### Signed operators -/

/-- A Pauli operator on qubits, with its sign. -/
structure SignedPauli where
  /-- The sign is minus. -/
  negative : Bool
  /-- The factor of every qubit. -/
  factor : Nat → Pauli

namespace SignedPauli

/-- The operator with the factors of qubits and the identity elsewhere. -/
def ofFactors (factors : List (Nat × Pauli)) : SignedPauli :=
  ⟨false, fun q => (factors.lookup q).getD .I⟩

/-- The operator with another factor at a qubit, its sign changed or not. -/
def replace (s : SignedPauli) (q : Nat) (new : Bool × Pauli) : SignedPauli :=
  ⟨s.negative != new.1, Function.update s.factor q new.2⟩

/-- The operator with other factors at two qubits, its sign changed or not. -/
def replacePair (s : SignedPauli) (q r : Nat) (new : Bool × Pauli × Pauli) : SignedPauli :=
  ⟨s.negative != new.1, Function.update (Function.update s.factor q new.2.1) r new.2.2⟩

/-- **Conjugation by a primitive of a script**, if it is a Clifford gate without controls on
distinct qubits. -/
def conjugate (s : SignedPauli) : Primitive → Option SignedPauli
  | ⟨.gate symbol [q], []⟩ => ((s.factor q).through symbol).map (s.replace q)
  | ⟨.gate symbol [q, r], []⟩ =>
    if q = r then none else ((s.factor q).throughPair (s.factor r) symbol).map (s.replacePair q r)
  | _ => none

/-- Conjugation by primitives, in the order in which they are written. -/
def conjugateAll (s : SignedPauli) (ps : List Primitive) : Option SignedPauli :=
  ps.foldlM conjugate s

@[simp] theorem conjugateAll_nil (s : SignedPauli) : s.conjugateAll [] = some s := rfl

theorem conjugateAll_cons (s : SignedPauli) (p : Primitive) (ps : List Primitive) :
    s.conjugateAll (p :: ps) = (s.conjugate p).bind fun s => s.conjugateAll ps := rfl

theorem conjugateAll_append (s : SignedPauli) (ps qs : List Primitive) :
    s.conjugateAll (ps ++ qs) = (s.conjugateAll ps).bind fun s => s.conjugateAll qs := by
  unfold conjugateAll; rw [List.foldlM_append]; rfl

/-! ### Primitives that undo each other -/

/-- **The primitives undo the others**: running both leaves every operator as it was. -/
def Undo (ps qs : List Primitive) : Prop := ∀ s : SignedPauli, s.conjugateAll (ps ++ qs) = some s

theorem undo_nil : Undo [] [] := fun _ => rfl

/-- Blocks that undo each other may be put around blocks that undo each other, as long as the outer
ones act at all. -/
theorem Undo.around {ps qs as bs : List Primitive} (h : Undo ps qs) (houter : Undo as bs) :
    Undo (as ++ ps) (qs ++ bs) := by
  intro s
  have hs := houter s
  rw [conjugateAll_append] at hs
  rw [show as ++ ps ++ (qs ++ bs) = as ++ ((ps ++ qs) ++ bs) by simp, conjugateAll_append]
  rcases has : s.conjugateAll as with _ | s'
  · rw [has] at hs; cases hs
  · rw [has] at hs
    rw [Option.bind_some, conjugateAll_append, h s']
    exact hs

end SignedPauli

end CircuitTrace
