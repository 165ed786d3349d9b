import CircuitTrace.Proofs.Translation.Leaves

/-! # What an operation is written as

An operation with a class is written by the rule of its class (`Operation.WrittenAs`), and an
exponential by its arguments (`IsExponential`), in gates of a few kinds (`IsExponentialGate`);
without a class and without calls an operation is an exponential, a comment, or nothing
(`Operation.childlessPrimitives_cases`). What is said about all primitives of a script goes through
these cases, and not through the way in which the primitives are put together. -/

namespace CircuitTrace

/-- What an exponential on qubits is made of: a rotation between gates that gather the parity of the
factors that take part, or a rotation about nothing. -/
inductive IsExponential (qubits : List Nat) (args : ExponentialArgs) : List Primitive → Prop where
  | parity {pivot : Nat} {P : Pauli} {rest : List (Nat × Pauli)}
      (hlength : args.basis.length = qubits.length)
      (hactive : activeFactors qubits args.basis = (pivot, P) :: rest) :
      IsExponential qubits args
        (gatherParity pivot (rest.map Prod.fst) ((pivot, P) :: rest) ++
          [⟨.rotation 'z' (.literal ("-2.0*" ++ args.angle)) pivot, []⟩] ++
          scatterParity pivot (rest.map Prod.fst) ((pivot, P) :: rest))
  | phase {qubit : Nat} {rest : List Nat} (hactive : activeFactors qubits args.basis = [])
      (hqubits : qubits = qubit :: rest) :
      IsExponential qubits args [⟨.rotation 'i' (.literal ("-2.0*" ++ args.angle)) qubit, []⟩]

theorem isExponential_of_exponentialPrimitives {qubits : List Nat} {args : ExponentialArgs}
    {ps : List Primitive} (h : exponentialPrimitives qubits args = .ok ps) :
    IsExponential qubits args ps := by
  unfold exponentialPrimitives at h
  simp only at h
  split_ifs at h with hlength
  split at h
  · next hactive =>
    cases h
    exact .parity (Decidable.not_not.mp hlength) hactive
  · next hactive =>
    cases h
    exact .phase hactive rfl
  · cases h

/-- **A gate of an exponential**: it changes the basis of a qubit that takes part, flips the pivot
under another one, or is the rotation. -/
inductive IsExponentialGate (qubits : List Nat) (args : ExponentialArgs) : Primitive → Prop where
  | basis {f : Nat × Pauli} {index : Nat} {correction : Pauli} {symbol : String}
      (hf : f ∈ activeFactors qubits args.basis)
      (hsymbol : symbol ∈ cliffordGates index correction) :
      IsExponentialGate qubits args (.gate symbol [f.1] [])
  | flip {pivot q : Nat} {P : Pauli} {rest : List (Nat × Pauli)}
      (hlength : args.basis.length = qubits.length)
      (hactive : activeFactors qubits args.basis = (pivot, P) :: rest)
      (hq : q ∈ rest.map Prod.fst) :
      IsExponentialGate qubits args (parityFlip pivot q)
  | rotation {f : Nat × Pauli} (hf : f ∈ activeFactors qubits args.basis) :
      IsExponentialGate qubits args ⟨.rotation 'z' (.literal ("-2.0*" ++ args.angle)) f.1, []⟩
  | phase {qubit : Nat} (hqubit : qubit ∈ qubits) :
      IsExponentialGate qubits args ⟨.rotation 'i' (.literal ("-2.0*" ++ args.angle)) qubit, []⟩

/-- A basis is changed by Clifford elements. -/
theorem exists_symbol_of_mem_basis {q : Nat} {P : Pauli} {p : Primitive}
    (hp : p ∈ enterBasis q P ∨ p ∈ leaveBasis q P) :
    ∃ index correction, ∃ symbol ∈ cliffordGates index correction, p = .gate symbol [q] [] := by
  have hclifford : ∀ {index correction}, p ∈ cliffordPrimitives index correction [q] [] →
      ∃ index correction, ∃ symbol ∈ cliffordGates index correction, p = .gate symbol [q] [] := by
    intro index correction hp
    obtain ⟨symbol, hsymbol, rfl⟩ := List.mem_map.mp hp
    exact ⟨index, correction, symbol, hsymbol, rfl⟩
  cases P with
  | X | Y => exact hp.elim hclifford hclifford
  | Z | I => exact hp.elim nofun nofun

/-- **What the gates of an exponential are.** -/
theorem isExponentialGate_of_mem {qubits : List Nat} {args : ExponentialArgs} {ps : List Primitive}
    (h : exponentialPrimitives qubits args = .ok ps) :
    ∀ p ∈ ps, IsExponentialGate qubits args p := by
  intro p hp
  cases isExponential_of_exponentialPrimitives h with
  | @phase qubit rest _ hqubits =>
    obtain rfl := List.mem_singleton.mp hp
    exact .phase (hqubits ▸ List.mem_cons_self)
  | @parity pivot P rest hlength hactive =>
    have hbasis : ∀ f ∈ (pivot, P) :: rest, p ∈ enterBasis f.1 f.2 ∨ p ∈ leaveBasis f.1 f.2 →
        IsExponentialGate qubits args p := by
      intro f hf hp
      obtain ⟨index, correction, symbol, hsymbol, rfl⟩ := exists_symbol_of_mem_basis hp
      exact .basis (hactive ▸ hf) hsymbol
    simp only [gatherParity, scatterParity, List.mem_append, List.mem_flatMap, List.mem_reverse,
      List.mem_singleton] at hp
    rcases hp with ((⟨f, hf, hp⟩ | hp) | rfl) | (hp | ⟨f, hf, hp⟩)
    · exact hbasis f hf (.inl hp)
    · obtain ⟨q, hq, rfl⟩ := List.mem_map.mp hp
      exact .flip hlength hactive hq
    · exact .rotation (hactive ▸ List.mem_cons_self)
    · obtain ⟨q, hq, rfl⟩ := List.mem_map.mp hp
      exact .flip hlength hactive (List.mem_reverse.mp hq)
    · exact hbasis f hf (.inr hp)

namespace Operation

theorem checked_eq_ok_iff {α : Type} {op : Operation} {r : Except ArgumentFault α} {x : α} :
    op.checked r = .ok x ↔ r = .ok x := by
  rcases r with e | y <;> simp [checked]

/-- What an operation of a class is written as. -/
inductive WrittenAs (op : Operation) (key : Nat) : GateClass → List Primitive → Prop where
  | passThrough :
      WrittenAs op key .passThrough [.gate op.gate op.actedQubits op.controlQubits]
  | clifford {args : CliffordArgs} (hargs : CliffordArgs.parse op.displayArgs = .ok args) :
      WrittenAs op key .clifford
        (cliffordPrimitives args.index args.pauli op.actedQubits op.controlQubits)
  | canonicalCx : WrittenAs op key .canonicalCx [.gate "CX" op.actedQubits []]
  | rotation {args : RotationArgs} {q : Nat} {qs : List Nat}
      (hargs : RotationArgs.parse op.displayArgs = .ok args) (hacted : op.actedQubits = q :: qs) :
      WrittenAs op key .rotation [⟨.rotation args.axis args.angle q, op.controlQubits⟩]
  | measurement {q : Nat} (hq : op.onlyQubit .measurement = .ok q) :
      WrittenAs op key .measurement [⟨.measure q key, []⟩]
  | reset {q : Nat} (hq : op.onlyQubit .reset = .ok q) :
      WrittenAs op key .reset [.gate "reset" [q] []]
  | noOp : WrittenAs op key .noOp []

/-- **What a class writes**, with what it takes to write it. -/
theorem writtenAs_of_classPrimitives {op : Operation} {key : Nat} {cls : GateClass}
    {ps : List Primitive} (h : op.classPrimitives key cls = .ok ps) : op.WrittenAs key cls ps := by
  cases cls with
  | passThrough =>
    cases h
    exact .passThrough
  | canonicalCx =>
    cases h
    exact .canonicalCx
  | noOp =>
    cases h
    exact .noOp
  | clifford =>
    rw [classPrimitives, checked_eq_ok_iff] at h
    rcases hargs : CliffordArgs.parse op.displayArgs with e | args <;> rw [hargs] at h
    · cases h
    · cases h
      exact .clifford hargs
  | rotation =>
    rw [classPrimitives, checked_eq_ok_iff, rotationPrimitives] at h
    rcases hargs : RotationArgs.parse op.displayArgs with e | args <;> simp only [hargs] at h
    · cases h
    · rcases hacted : op.actedQubits with _ | ⟨q, qs⟩ <;> rw [hacted] at h
      · cases h
      · cases h
        exact .rotation hargs hacted
  | measurement =>
    rw [classPrimitives] at h
    rcases hq : op.onlyQubit .measurement with e | q <;> rw [hq] at h
    · cases h
    · cases h
      exact .measurement hq
  | reset =>
    rw [classPrimitives] at h
    rcases hq : op.onlyQubit .reset with e | q <;> rw [hq] at h
    · cases h
    · cases h
      exact .reset hq

/-- The circuit of an exponential comes from its arguments. -/
theorem exists_args_of_exponential {op : Operation} {ps : List Primitive}
    (h : op.exponential = .ok ps) :
    ∃ args, ExponentialArgs.parse op.displayArgs = .ok args ∧
      exponentialPrimitives op.ownQubits args = .ok ps := by
  rw [exponential, checked_eq_ok_iff] at h
  split at h
  · cases h
  · next args hargs => exact ⟨args, hargs, h⟩

/-- **What is written without a class and calls**: nothing, an exponential, or a comment. -/
theorem childlessPrimitives_cases {op : Operation} {config : Config} {ps : List Primitive}
    (h : op.childlessPrimitives config = .ok ps) :
    ps = [] ∨ op.exponential = .ok ps ∨ ps = [op.unhandledPrimitive] := by
  unfold childlessPrimitives at h
  split_ifs at h
  · cases h
    exact .inl rfl
  · exact .inr (.inl h)
  · cases h
    exact .inr (.inr rfl)
  · cases h
    exact .inl rfl

end Operation

end CircuitTrace
