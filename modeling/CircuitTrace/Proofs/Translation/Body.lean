import CircuitTrace.Proofs.Operation.Wires
import CircuitTrace.Proofs.Translation.Writing

/-! # The body of a classified operation

The calls of an operation with a class are not translated, but they leave a trace all the same: when
they are adopted, the operation covers their qubits, and its gate is written on all the qubits that
it covers. `Operation.Overlooks` says which qubits may be added without being noticed: those that
the operation acts on already, those that it only reads unless it has to act on one qubit, and any
qubit if nothing is written on it anyway.

* `classPrimitives_adopt_eq_iff`: an adopted call leaves the primitives of an operation alone
  exactly if all of its qubits are overlooked; `visit_adopt_eq_iff` says the same of a visit.
* `exists_visit_adopt_ne`: a call on another qubit widens the gate. -/

namespace CircuitTrace

namespace Operation

/-- **An operation of a class overlooks a qubit** if its primitives do not change when the qubit
becomes one of its targets. -/
def Overlooks (p : Operation) (q : Nat) : GateClass → Prop
  | .noOp => True
  | .measurement | .reset => q ∈ p.ownQubits
  | .passThrough | .canonicalCx => q ∈ p.ownQubits ∨ q ∈ p.controlQubits
  | .clifford =>
    (q ∈ p.ownQubits ∨ q ∈ p.controlQubits) ∨
      ∀ args, CliffordArgs.parse p.displayArgs = .ok args → cliffordGates args.index args.pauli = []
  | .rotation =>
    (q ∈ p.ownQubits ∨ q ∈ p.controlQubits) ∨ p.actedQubits ≠ [] ∨
      ∀ args, RotationArgs.parse p.displayArgs ≠ .ok args

theorem actedQubits_adopt_eq_iff {p c : Operation} :
    (p.adopt c).actedQubits = p.actedQubits ↔
      ∀ q, .qubit q ∈ c.targets → q ∈ p.ownQubits ∨ q ∈ p.controlQubits :=
  targetQubits_adopt_eq_iff

theorem ownQubits_adopt_eq_iff {p c : Operation} :
    (p.adopt c).ownQubits = p.ownQubits ↔ ∀ q, .qubit q ∈ c.targets → q ∈ p.ownQubits := by
  refine targetQubits_adopt_eq_iff.trans ?_
  simp

@[simp] theorem checked_adopt {α : Type} (p c : Operation) (r : Except ArgumentFault α) :
    (p.adopt c).checked r = p.checked r := by
  rcases r with e | x <;> rfl

theorem checked_eq_checked_iff {α : Type} {p : Operation} {r s : Except ArgumentFault α} :
    p.checked r = p.checked s ↔ r = s := by
  rcases r with e | x <;> rcases s with f | y <;> simp [checked, malformed]

/-! ### Classes with a gate on all acted qubits -/

theorem gate_eq_gate_iff {symbol : String} {qs rs controls : List Nat} :
    (.ok [.gate symbol qs controls] : Except Halt (List Primitive)) =
      .ok [.gate symbol rs controls] ↔ qs = rs := by
  simp [Primitive.gate]

theorem cliffordPrimitives_eq_iff {index : Nat} {correction : Pauli} {qs rs controls : List Nat} :
    cliffordPrimitives index correction qs controls =
        cliffordPrimitives index correction rs controls ↔
      qs = rs ∨ cliffordGates index correction = [] := by
  unfold cliffordPrimitives
  rcases cliffordGates index correction with _ | ⟨symbol, symbols⟩
  · simp
  · simp only [List.map_cons, List.cons.injEq, Primitive.gate, Primitive.mk.injEq,
      Instruction.gate.injEq, true_and, and_true, reduceCtorEq, or_false]
    refine ⟨fun h => h.1, fun h => ⟨h, ?_⟩⟩
    rw [h]

theorem clifford_adopt_eq_iff {p c : Operation} {key : Nat} :
    (p.adopt c).classPrimitives key .clifford = p.classPrimitives key .clifford ↔
      ∀ q, .qubit q ∈ c.targets → p.Overlooks q .clifford := by
  simp only [classPrimitives, Overlooks, checked_adopt, checked_eq_checked_iff, displayArgs_adopt,
    controlQubits_adopt]
  rcases CliffordArgs.parse p.displayArgs with e | args
  · simp [Except.map]
  · simp only [Except.map, Except.ok.injEq, cliffordPrimitives_eq_iff, actedQubits_adopt_eq_iff,
      forall_eq']
    constructor
    · rintro (h | h) q hq
      · exact Or.inl (h q hq)
      · exact Or.inr h
    · intro h
      by_cases hg : cliffordGates args.index args.pauli = []
      · exact Or.inr hg
      · exact Or.inl fun q hq => (h q hq).resolve_right hg

/-! ### Rotations -/

/-- A rotation is about the first qubit that it acts on, which stays the first one. -/
theorem rotationPrimitives_adopt_of_acted {p : Operation} (h : p.actedQubits ≠ []) (c : Operation) :
    (p.adopt c).rotationPrimitives = p.rotationPrimitives := by
  obtain ⟨more, hmore⟩ := targetQubits_prefix_adopt p c p.controlQubits
  obtain ⟨q, qs, hq⟩ := List.exists_cons_of_ne_nil h
  have hadopted : (p.adopt c).actedQubits = q :: (qs ++ more) := by
    unfold actedQubits at hq ⊢
    rw [controlQubits_adopt, ← hmore, hq, List.cons_append]
  unfold rotationPrimitives
  rw [hadopted, hq, displayArgs_adopt, controlQubits_adopt]

theorem rotation_adopt_eq_iff {p c : Operation} {key : Nat} :
    (p.adopt c).classPrimitives key .rotation = p.classPrimitives key .rotation ↔
      ∀ q, .qubit q ∈ c.targets → p.Overlooks q .rotation := by
  simp only [classPrimitives, Overlooks, checked_adopt, checked_eq_checked_iff]
  by_cases hacted : p.actedQubits = []
  · -- without an acted qubit there is an error, which a first one would repair
    have hnone : p.rotationPrimitives = (p.adopt c).rotationPrimitives ↔
        (∀ args, RotationArgs.parse p.displayArgs ≠ .ok args) ∨
          (p.adopt c).actedQubits = p.actedQubits := by
      unfold rotationPrimitives
      rw [hacted, displayArgs_adopt, controlQubits_adopt]
      rcases RotationArgs.parse p.displayArgs with e | args
      · simp
      · rcases (p.adopt c).actedQubits with _ | ⟨q, qs⟩ <;> simp
    rw [eq_comm, hnone, actedQubits_adopt_eq_iff]
    constructor
    · rintro (h | h) q hq
      · exact Or.inr (Or.inr h)
      · exact Or.inl (h q hq)
    · intro h
      by_cases hp : ∀ args, RotationArgs.parse p.displayArgs ≠ .ok args
      · exact Or.inl hp
      · refine Or.inr fun q hq => ?_
        rcases h q hq with h | h | h
        · exact h
        · exact absurd hacted h
        · exact absurd h hp
  · exact ⟨fun _ q _ => Or.inr (Or.inl hacted), fun _ => rotationPrimitives_adopt_of_acted hacted c⟩

/-! ### Classes that act on one qubit -/

theorem onlyQubit_eq_ok_iff {p : Operation} {breach : Nat → Breach} {q : Nat} :
    p.onlyQubit breach = .ok q ↔ p.ownQubits = [q] := by
  unfold onlyQubit
  split
  · next r hr => rw [hr]; simp
  · next hne =>
    constructor
    · intro h; cases h
    · intro h; exact absurd h (hne q)

theorem onlyQubit_eq_error {p : Operation} {breach : Nat → Breach} {h : Halt}
    (hp : p.onlyQubit breach = .error h) : h = .breach (breach p.ownQubits.length) := by
  unfold onlyQubit at hp
  split at hp
  · cases hp
  · exact (Except.error.inj hp).symm

/-- The result tells the number of qubits, as the report of a breach names it. -/
theorem length_ownQubits_of_onlyQubit_eq {p p' : Operation} {breach : Nat → Breach}
    (hb : Function.Injective breach) (h : p.onlyQubit breach = p'.onlyQubit breach) :
    p.ownQubits.length = p'.ownQubits.length := by
  rcases hr : p.onlyQubit breach with e | q
  · have hp := onlyQubit_eq_error hr
    have hp' := onlyQubit_eq_error (h ▸ hr)
    rw [hp, Halt.breach.injEq] at hp'
    exact hb hp'
  · rw [onlyQubit_eq_ok_iff.mp hr, onlyQubit_eq_ok_iff.mp (h ▸ hr)]

theorem onlyQubit_adopt_eq_iff {p c : Operation} {breach : Nat → Breach}
    (hb : Function.Injective breach) :
    (p.adopt c).onlyQubit breach = p.onlyQubit breach ↔
      ∀ q, .qubit q ∈ c.targets → q ∈ p.ownQubits := by
  rw [← ownQubits_adopt_eq_iff]
  refine ⟨fun h => ?_, fun h => by unfold onlyQubit; rw [h]⟩
  have hlen := length_ownQubits_of_onlyQubit_eq hb h
  exact ((targetQubits_prefix_adopt p c []).eq_of_length hlen.symm).symm

theorem map_eq_map_iff {α β : Type} {f : α → β} (hf : Function.Injective f)
    {r s : Except Halt α} : r.map f = s.map f ↔ r = s := by
  rcases r with e | x <;> rcases s with e' | y <;> simp [Except.map, hf.eq_iff]

/-- **An adopted call leaves the primitives of a classified operation alone** exactly if its qubits
are overlooked. -/
theorem classPrimitives_adopt_eq_iff {p c : Operation} {key : Nat} (cls : GateClass) :
    (p.adopt c).classPrimitives key cls = p.classPrimitives key cls ↔
      ∀ q, .qubit q ∈ c.targets → p.Overlooks q cls := by
  cases cls with
  | passThrough => exact gate_eq_gate_iff.trans actedQubits_adopt_eq_iff
  | clifford => exact clifford_adopt_eq_iff
  | canonicalCx => exact gate_eq_gate_iff.trans actedQubits_adopt_eq_iff
  | rotation => exact rotation_adopt_eq_iff
  | measurement =>
    have hf : Function.Injective fun q => [(⟨.measure q key, []⟩ : Primitive)] := by
      intro q r h
      simpa using h
    exact (map_eq_map_iff hf).trans (onlyQubit_adopt_eq_iff fun m n h => Breach.measurement.inj h)
  | reset =>
    have hf : Function.Injective fun q => [Primitive.gate "reset" [q] []] := by
      intro q r h
      simpa [Primitive.gate] using h
    exact (map_eq_map_iff hf).trans (onlyQubit_adopt_eq_iff fun m n h => Breach.reset.inj h)
  | noOp => simp [classPrimitives, Overlooks]

end Operation

namespace Translation

/-- **A call that is adopted does not influence the translation of its classified caller** exactly
if every qubit that it targets is overlooked by the caller. -/
theorem visit_adopt_eq_iff {p : Operation} {cls : GateClass}
    (hcls : GateClass.classify p.gate = some cls) (c : Operation) (callerDepth : Nat)
    (t : Translation) :
    ((visit callerDepth (p.adopt c) t).halt = (visit callerDepth p t).halt ∧
        (visit callerDepth (p.adopt c) t).translation = (visit callerDepth p t).translation) ↔
      ∀ q, .qubit q ∈ c.targets → p.Overlooks q cls := by
  have hadopted : GateClass.classify (p.adopt c).gate = some cls := hcls
  have henter : t.enter (p.adopt c) (callerDepth + 1) = t.enter p (callerDepth + 1) := rfl
  rw [visit_of_classify hcls, visit_of_classify hadopted, henter,
    Walk.andThen_of_ok (halt_enter t p _), Walk.andThen_of_ok (halt_enter t p _)]
  simp only [halt_decompose, translation_decompose, settle_eq_settle_iff]
  exact Operation.classPrimitives_adopt_eq_iff cls

/-- A controlled flip whose body touches its two qubits again. -/
theorem visit_adopt_eq_of_own_wires :
    let p : Operation := ⟨"X", none, none, true, false, false, [.qubit 0], [.qubit 1]⟩
    let c : Operation := ⟨"Interface_CX", none, none, false, false, false, [], [.qubit 0, .qubit 1]⟩
    GateClass.classify p.gate = some .passThrough ∧
      (visit 1 (p.adopt c) (new .default)).translation =
        (visit 1 p (new .default)).translation := by
  intro p c
  have hcls : GateClass.classify p.gate = some .passThrough := rfl
  refine ⟨hcls, ((visit_adopt_eq_iff hcls c 1 (new .default)).mpr ?_).2⟩
  intro q hq
  simp [c] at hq
  rcases hq with rfl | rfl
  · exact Or.inr (by decide)
  · exact Or.inl (by decide)

/-- **A call on another qubit widens the gate**: the Hadamard gate on qubit 0 is written on qubits 0
and 1 when its body touches qubit 1. -/
theorem exists_visit_adopt_ne :
    ∃ p c : Operation, GateClass.classify p.gate = some .passThrough ∧
      (visit 1 p (new .default)).translation.lines = [⟨.gate "H" [0] [], 1⟩] ∧
      (visit 1 (p.adopt c) (new .default)).translation.lines = [⟨.gate "H" [0, 1] [], 1⟩] :=
  ⟨{ Operation.ofGate "H" with targets := [.qubit 0] },
    { Operation.ofGate "Inner" with targets := [.qubit 1] }, by decide, by decide, by decide⟩

end Translation

end CircuitTrace
