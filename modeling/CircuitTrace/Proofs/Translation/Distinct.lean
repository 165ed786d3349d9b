import CircuitTrace.Proofs.Translation.ExponentialCircuit
import CircuitTrace.Proofs.Translation.Qubits
import CircuitTrace.Proofs.Translation.Stable

/-! # The qubits of a line are different

The registers of an operation may name a qubit more than once, as a control, as a target and as the
qubit of a classical bit. The qubits that it acts on and those that control it are still all
different, and every class of gates is written on some of them. The gates of an exponential stand on
one qubit each, except for the controlled flips of the ladder, the qubits of which are two places of
a list without repetition (`nodup_exponentialPrimitives`).

So a leaf is written on different qubits whatever its registers are (`nodup_leafPrimitives`). That
is stable, and holds of every line after every list of tasks (`nodup_qubits_performAll`). -/

namespace CircuitTrace

/-! ### Exponentials -/

theorem nodup_qubits_cliffordPrimitives {index : Nat} {correction : Pauli}
    {qubits controls : List Nat} (h : (qubits ++ controls).Nodup) :
    ∀ p ∈ cliffordPrimitives index correction qubits controls, p.qubits.Nodup := by
  intro p hp
  obtain ⟨symbol, -, rfl⟩ := List.mem_map.mp hp
  exact h

/-- **The gates of an exponential stand on different qubits** if its own qubits are different. -/
theorem nodup_exponentialPrimitives {qubits : List Nat} {args : ExponentialArgs}
    {ps : List Primitive} (hqubits : qubits.Nodup)
    (h : exponentialPrimitives qubits args = .ok ps) :
    ∀ p ∈ ps, p.qubits.Nodup := by
  intro p hp
  cases isExponentialGate_of_mem h p hp with
  | basis | rotation | phase => exact List.nodup_singleton _
  | @flip pivot q P rest hlength hactive hq =>
    -- the pivot does not stand among the other qubits that take part
    have hfactors := nodup_activeFactors hqubits hlength
    rw [hactive, List.map_cons] at hfactors
    have hne : q ≠ pivot := fun heq => (List.nodup_cons.mp hfactors).1 (heq ▸ hq)
    exact List.nodup_cons.mpr
      ⟨fun hmem => hne (List.mem_singleton.mp hmem), List.nodup_singleton _⟩

/-! ### Operations -/

namespace Operation

/-- **An operation with a class is written on different qubits.** -/
theorem nodup_classPrimitives {op : Operation} {key : Nat} {cls : GateClass} {ps : List Primitive}
    (h : op.classPrimitives key cls = .ok ps) : ∀ p ∈ ps, p.qubits.Nodup := by
  have hwires := op.nodup_actedQubits_append
  have hone : ∀ q : Nat, ([q] ++ []).Nodup := List.nodup_singleton
  cases writtenAs_of_classPrimitives h with
  | passThrough => exact List.forall_mem_singleton.mpr hwires
  | canonicalCx =>
    refine List.forall_mem_singleton.mpr ?_
    exact hwires.sublist ((List.nil_sublist _).append_left _)
  | noOp => exact nofun
  | clifford => exact nodup_qubits_cliffordPrimitives hwires
  | @rotation _ q qs _ hacted =>
    rw [hacted] at hwires
    refine List.forall_mem_singleton.mpr (hwires.sublist ?_)
    exact (List.cons_sublist_cons.mpr (List.nil_sublist qs)).append_right _
  | @measurement q | @reset q => exact List.forall_mem_singleton.mpr (hone q)

/-- An operation without a class and without calls is written on different qubits. -/
theorem nodup_childlessPrimitives {op : Operation} {config : Config} {ps : List Primitive}
    (h : op.childlessPrimitives config = .ok ps) : ∀ p ∈ ps, p.qubits.Nodup := by
  obtain rfl | hexponential | rfl := childlessPrimitives_cases h
  · exact nofun
  · obtain ⟨args, -, hps⟩ := exists_args_of_exponential hexponential
    exact nodup_exponentialPrimitives (nodup_firstSeen _) hps
  · exact List.forall_mem_singleton.mpr op.nodup_actedQubits_append

/-- **A leaf is written on different qubits**, whatever its registers are. -/
theorem nodup_leafPrimitives {op : Operation} {config : Config} {key : Nat} {ps : List Primitive}
    (h : op.leafPrimitives config key = .ok ps) : ∀ p ∈ ps, p.qubits.Nodup := by
  unfold leafPrimitives at h
  split at h
  · exact nodup_classPrimitives h
  · exact nodup_childlessPrimitives h

end Operation

/-! ### Scripts -/

namespace Translation

theorem stable_nodup : Stable fun t => ∀ p ∈ t.primitives, p.qubits.Nodup where
  advance _ h := h
  leaf t op ps hps h := by
    rw [primitives_writeAll]
    exact List.forall_mem_append.mpr ⟨h, Operation.nodup_leafPrimitives hps⟩
  note _ _ h := h

/-- **No line uses a qubit twice.** After any tasks, failed ones included, the qubits that the
instruction of a line acts on and the qubits that control it are all different. -/
theorem nodup_qubits_performAll (config : Config) (tasks : List Task) :
    ∀ l ∈ ((new config).performAll tasks).lines,
      (l.primitive.instruction.qubits ++ l.primitive.controls).Nodup := fun _ hl =>
  stable_nodup.performAll tasks (List.forall_mem_nil _) _ (List.mem_map_of_mem hl)

/-- A gate the registers of which repeat and overlap, visited behind an operation that fails. -/
theorem nodup_qubits_of_overlapping :
    let wrong : Operation := { Operation.ofGate "R" with displayArgs := some "(1.0)" }
    let op : Operation := { Operation.ofGate "CCX" with
      controls := [.qubit 1, .qubit 1], targets := [.qubit 2, .qubit 1, .classical 3 0, .qubit 2] }
    let t := (new .default).performAll [.visit 0 wrong, .visit 0 op]
    (visit 0 wrong (new .default)).halt ≠ none ∧ ⟨.gate "CCX" [2, 3] [1], 2⟩ ∈ t.lines ∧
      ([2, 3] ++ [1]).Nodup := by
  intro wrong op t
  have hline : ⟨.gate "CCX" [2, 3] [1], 2⟩ ∈ t.lines := by decide +kernel
  exact ⟨by decide +kernel, hline, nodup_qubits_performAll .default _ _ hline⟩

end Translation

end CircuitTrace
