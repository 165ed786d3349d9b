import CircuitTrace.Proofs.Translation.Tour

/-! # The keys of measurements

A measurement stores its outcome under a key, and the key is all that an operation hands on to the
next one. Only the class of measurements looks at it: what else is written has no key
(`key?_classPrimitives`, `key?_exponential`), and a measurement is written under the key that it is
given (`leafPrimitives_cases`). So the keys of a translation are numbered in the order of its lines
(`stable_keys`), and an operation that comes `k` measurements later is written alike, under a key
that is higher by `k` (`stopPrimitives_later`). -/

namespace CircuitTrace

/-- The key under which an instruction stores an outcome. -/
def Instruction.key? : Instruction → Option Nat
  | .measure _ key => some key
  | _ => none

/-- The same instruction `k` measurements later. -/
def Instruction.later (k : Nat) : Instruction → Instruction
  | .measure qubit key => .measure qubit (k + key)
  | i => i

/-- The same primitive `k` measurements later. -/
def Primitive.later (k : Nat) (p : Primitive) : Primitive :=
  { p with instruction := p.instruction.later k }

namespace Instruction

theorem later_of_key? {i : Instruction} (h : i.key? = none) (k : Nat) : i.later k = i := by
  cases i with
  | measure qubit key => cases h
  | gate | rotation | unhandled => rfl

@[simp] theorem symbol?_later (k : Nat) (i : Instruction) : (i.later k).symbol? = i.symbol? := by
  cases i <;> rfl

theorem nextKey_of_key? {i : Instruction} (h : i.key? = none) (key : Nat) :
    Translation.nextKey key i = key := by
  cases i with
  | measure qubit key => cases h
  | gate | rotation | unhandled => rfl

theorem nextKey_later (k key : Nat) (i : Instruction) :
    Translation.nextKey (k + key) (i.later k) = k + Translation.nextKey key i := by
  cases i <;> rfl

end Instruction

theorem map_later_of_key? {ps : List Primitive} (h : ∀ p ∈ ps, p.instruction.key? = none)
    (k : Nat) : ps.map (Primitive.later k) = ps := by
  refine List.map_congr_left (fun p hp => ?_) |>.trans (List.map_id ps)
  unfold Primitive.later
  rw [Instruction.later_of_key? (h p hp)]
  rfl

/-- Only measurements move the key of the next measurement. -/
theorem keyAfter_of_key? {key : Nat} : ∀ {ps : List Primitive},
    (∀ p ∈ ps, p.instruction.key? = none) → keyAfter key ps = key
  | [], _ => rfl
  | p :: ps, h => by
    have hcons : keyAfter key (p :: ps) =
        keyAfter (Translation.nextKey key p.instruction) ps := rfl
    rw [hcons, Instruction.nextKey_of_key? (h p List.mem_cons_self)]
    exact keyAfter_of_key? fun q hq => h q (List.mem_cons_of_mem p hq)

/-! ### Primitives without keys -/

theorem key?_cliffordPrimitives {index : Nat} {correction : Pauli} {qubits controls : List Nat} :
    ∀ p ∈ cliffordPrimitives index correction qubits controls, p.instruction.key? = none := by
  intro p hp
  obtain ⟨symbol, -, rfl⟩ := List.mem_map.mp hp
  rfl

namespace Operation

theorem key?_exponential {op : Operation} {ps : List Primitive} (h : op.exponential = .ok ps) :
    ∀ p ∈ ps, p.instruction.key? = none := by
  obtain ⟨args, -, hps⟩ := exists_args_of_exponential h
  intro p hp
  cases isExponentialGate_of_mem hps p hp with
  | basis | flip | rotation | phase => rfl

/-- **Only measurements are written under a key.** -/
theorem key?_classPrimitives {op : Operation} {key : Nat} {cls : GateClass} {ps : List Primitive}
    (hcls : cls ≠ .measurement) (h : op.classPrimitives key cls = .ok ps) :
    ∀ p ∈ ps, p.instruction.key? = none := by
  cases writtenAs_of_classPrimitives h with
  | measurement => exact absurd rfl hcls
  | clifford => exact key?_cliffordPrimitives
  | noOp => exact List.forall_mem_nil _
  | passThrough | canonicalCx | rotation | reset => exact List.forall_mem_singleton.mpr rfl

/-- Operations of other classes than measurements leave the key alone. -/
theorem keyAfter_classPrimitives {op : Operation} {key : Nat} {cls : GateClass}
    {ps : List Primitive} (hcls : cls ≠ .measurement) (h : op.classPrimitives key cls = .ok ps) :
    keyAfter key ps = key :=
  keyAfter_of_key? (key?_classPrimitives hcls h)

/-- **A leaf is a measurement under the key that it is given**, or has no key. -/
theorem leafPrimitives_cases {op : Operation} {config : Config} {key : Nat} {ps : List Primitive}
    (h : op.leafPrimitives config key = .ok ps) :
    (∃ q, ps = [⟨.measure q key, []⟩]) ∨ ∀ p ∈ ps, p.instruction.key? = none := by
  unfold leafPrimitives at h
  split at h
  · next cls _ =>
    by_cases hcls : cls = .measurement
    · subst hcls
      cases writtenAs_of_classPrimitives h with
      | @measurement q => exact Or.inl ⟨q, rfl⟩
    · exact Or.inr (key?_classPrimitives hcls h)
  · obtain rfl | hexponential | rfl := childlessPrimitives_cases h
    · exact Or.inr (List.forall_mem_nil _)
    · exact Or.inr (key?_exponential hexponential)
    · exact Or.inr (List.forall_mem_singleton.mpr rfl)

/-! ### Later keys -/

theorem map_later_eq {r : Except Halt (List Primitive)}
    (h : ∀ ps, r = .ok ps → ∀ p ∈ ps, p.instruction.key? = none) (k : Nat) :
    r.map (List.map (Primitive.later k)) = r := by
  rcases r with halt | ps
  · rfl
  · exact congrArg Except.ok (map_later_of_key? (h ps rfl) k)

/-- Only a measurement looks at the key. -/
theorem classPrimitives_of_ne {cls : GateClass} (hcls : cls ≠ .measurement) (op : Operation)
    (key key' : Nat) : op.classPrimitives key cls = op.classPrimitives key' cls := by
  cases cls with
  | measurement => exact absurd rfl hcls
  | passThrough | canonicalCx | noOp | clifford | rotation | reset => rfl

/-- **`k` measurements later** the same is written at a stop, under a later key. -/
theorem stopPrimitives_later (k key : Nat) (op : Operation) :
    op.stopPrimitives (k + key) =
      (op.stopPrimitives key).map (List.map (Primitive.later k)) := by
  unfold stopPrimitives
  split
  · next cls _ =>
    by_cases hcls : cls = .measurement
    · subst hcls
      rw [classPrimitives, classPrimitives]
      rcases op.onlyQubit .measurement with halt | q
      · rfl
      · rfl
    · rw [classPrimitives_of_ne hcls op (k + key) key]
      exact (map_later_eq (fun ps h => key?_classPrimitives hcls h) k).symm
  · rfl
  · split_ifs
    · rfl
    · exact (map_later_eq (fun ps h => key?_exponential h) k).symm

end Operation

namespace Translation

/-! ### Numbers of keys -/

/-- **The keys of the measurements**, in the order of their lines. -/
def keys (t : Translation) : List Nat := t.primitives.filterMap fun p => p.instruction.key?

/-- **Keys are numbered in the order of the lines.** -/
theorem stable_keys : Stable fun t => t.keys = List.range t.measurementKey where
  advance _ h := h
  leaf t op ps hps h := by
    unfold keys at h ⊢
    rw [primitives_writeAll, List.filterMap_append, h, measurementKey_writeAll]
    rcases Operation.leafPrimitives_cases hps with ⟨q, rfl⟩ | hnone
    · exact List.range_succ.symm
    · rw [keyAfter_of_key? hnone, List.filterMap_eq_nil_iff.mpr hnone, List.append_nil]
  note _ _ h := h

end Translation

end CircuitTrace
