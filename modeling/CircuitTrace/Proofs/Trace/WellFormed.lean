import CircuitTrace.Proofs.Operation.Preorder
import CircuitTrace.Proofs.Operation.Wires
import CircuitTrace.Proofs.Register.Allocator
import CircuitTrace.Proofs.Trace.Step

/-! # Captured paths are well-formed

Whatever a simulator notifies, the path of the run is well-formed (`ExecutionPath.WellFormed`): its
qubits stand in increasing order, and every operation, however deep, meets the conditions of
`Operation.WellFormed`, the qubits of its registers among them being declared.

The tracer keeps more than that (`Tracer.Sound`). All that hangs on the stack is well-formed, and
directly above a measurement there is only an absent entry. So a measurement never adopts anything:
it keeps its one target and has no calls. A start and an end preserve this (`Sound.start`,
`Sound.finish`), hence every run does. -/

namespace CircuitTrace

namespace Operation

/-- **An operation is well-formed** over the declared qubits. -/
structure WellFormed (qubits : List Nat) (op : Operation) : Prop where
  /-- A list of children is there only if there are children. -/
  children_ne : op.children ≠ some []
  /-- A measurement has no calls. It reads qubits and writes a classical bit of the first one. -/
  measurement : op.isMeasurement = true → op.children = none ∧
    ∃ q c qs, op.targets = [.classical q c] ∧ op.controls = (q :: qs).map .qubit
  /-- Other operations read and write qubits. -/
  noClassical : op.isMeasurement = false →
    ∀ r ∈ op.controls ++ op.targets, r.isClassical = false
  /-- An X under control does not call another one. -/
  collapsed : op.isControlledX = true → ∀ c ∈ op.calls, c.isControlledX = false
  /-- The qubits of all registers are declared. -/
  declared : ∀ r ∈ op.controls ++ op.targets, r.qubitId ∈ qubits

theorem WellFormed.mono {qubits qubits' : List Nat} (hsub : ∀ q ∈ qubits, q ∈ qubits')
    {op : Operation} (h : op.WellFormed qubits) : op.WellFormed qubits' :=
  { h with declared := fun r hr => hsub _ (h.declared r hr) }

/-- An operation that is not a measurement may adopt any other, unless both are an X under
control. -/
theorem WellFormed.adopt {qubits : List Nat} {p c : Operation} (hp : p.WellFormed qubits)
    (hc : c.WellFormed qubits) (hm : p.isMeasurement = false)
    (hx : (p.isControlledX && c.isControlledX) = false) : (p.adopt c).WellFormed qubits := by
  obtain ⟨new, hnew, hmem⟩ := exists_targets_adopt p c
  have hregisters : ∀ r ∈ (p.adopt c).controls ++ (p.adopt c).targets,
      r ∈ p.controls ++ p.targets ∨ (r ∈ c.targets ∧ r.isClassical = false) := by
    intro r hr
    have hr' : r ∈ (p.controls ++ p.targets) ++ new := by
      rw [List.append_assoc, ← hnew]
      exact hr
    rcases List.mem_append.mp hr' with hr' | hr'
    · exact Or.inl hr'
    · exact Or.inr (hmem r hr')
  refine ⟨?_, fun h => ?_, fun _ r hr => ?_, fun hpx d hd => ?_, fun r hr => ?_⟩
  · intro h
    exact absurd (Option.some.inj h) (List.append_ne_nil_of_right_ne_nil _ (List.cons_ne_nil _ _))
  · have hm' : p.isMeasurement = true := h
    rw [hm] at hm'
    cases hm'
  · rcases hregisters r hr with hr | ⟨-, hr⟩
    · exact hp.noClassical hm r hr
    · exact hr
  · have hpx' : p.isControlledX = true := hpx
    rcases List.mem_append.mp hd with hd | hd
    · exact hp.collapsed hpx' d hd
    · rw [hpx', Bool.true_and] at hx
      rw [List.mem_singleton.mp hd]
      exact hx
  · rcases hregisters r hr with hr | ⟨hr, -⟩
    · exact hp.declared r hr
    · exact hc.declared r (List.mem_append_right _ hr)

end Operation

/-- **A path is well-formed.** -/
structure ExecutionPath.WellFormed (path : ExecutionPath) : Prop where
  /-- The qubits are declared in strictly increasing order. -/
  ascending : path.qubits.Pairwise fun d e => d.id < e.id
  /-- Every operation is well-formed over the declared qubits, at any depth. -/
  operations : ∀ op ∈ Operation.preorderAll path.operations,
    op.WellFormed (path.qubits.map QubitDeclaration.id)

/-- What metadata describe is well-formed over the qubits that they ask for. -/
theorem Metadata.wellFormed_described {m : Metadata} (h : m.lacksTarget = false) (a : Allocator) :
    (m.described a).WellFormed (m.registered a).qubits := by
  have hmentioned : ∀ q ∈ m.controls ++ m.targets, q ∈ (m.registered a).qubits := by
    intro q hq
    rw [Metadata.qubits_registered]
    exact Allocator.mem_qubits_mentionAll.mpr (Or.inr hq)
  have hqubits : ∀ qs : List Nat, ∀ r ∈ qs.map Register.qubit,
      r.isClassical = false ∧ r.qubitId ∈ qs := by
    intro qs r hr
    obtain ⟨q, hq, rfl⟩ := List.mem_map.mp hr
    exact ⟨rfl, hq⟩
  have hchildren : (m.described a).children ≠ some [] := fun h => Option.some_ne_none [] h.symm
  have hcalls : ∀ c ∈ (m.described a).calls, c.isControlledX = false := fun _ h =>
    absurd h List.not_mem_nil
  cases hm : m.isMeasurement with
  | true =>
    obtain ⟨q, qs, hq⟩ : ∃ q qs, m.targets = q :: qs := by
      refine List.exists_cons_of_ne_nil fun hnil => ?_
      simp [lacksTarget, hm, hnil] at h
    have hcontrols : (m.described a).controls = (q :: qs).map Register.qubit := by
      simp [described, hm, hq]
    have htargets : (m.described a).targets = [.classical q (a.classicalCount q)] := by
      simp [described, hm, hq]
    refine ⟨hchildren, fun _ => ⟨rfl, q, _, qs, htargets, hcontrols⟩, fun hno => ?_,
      fun _ => hcalls, fun r hr => ?_⟩
    · exact absurd (hm.symm.trans hno) (by decide)
    · have hin : r.qubitId ∈ q :: qs := by
        rw [hcontrols, htargets] at hr
        rcases List.mem_append.mp hr with hr | hr
        · exact (hqubits _ r hr).2
        · rw [List.mem_singleton.mp hr]
          exact List.mem_cons_self
      exact hmentioned _ (List.mem_append_right _ (hq ▸ hin))
  | false =>
    have hregisters : (m.described a).controls ++ (m.described a).targets =
        (m.controls ++ m.targets).map Register.qubit := by
      simp [described, hm]
    refine ⟨hchildren, fun hyes => ?_, fun _ r hr => ?_, fun _ => hcalls, fun r hr => ?_⟩
    · exact absurd (hm.symm.trans hyes) (by decide)
    · rw [hregisters] at hr
      exact (hqubits _ r hr).1
    · rw [hregisters] at hr
      exact hmentioned _ (hqubits _ r hr).2

namespace Tracer

/-! ### Operations of entries -/

section Entries
variable {P : Operation → Prop}

/-- What holds of an operation and of all below it holds of all operations of its entry. -/
theorem forall_mem_entry {op : Operation} :
    (∀ o ∈ Operation.preorderAll (some op).toList, P o) ↔
      P op ∧ ∀ o ∈ Operation.preorderAll op.calls, P o := by
  rw [Option.toList_some, Operation.preorderAll_cons, Operation.preorderAll_nil, List.append_nil,
    Operation.preorder_eq]
  exact List.forall_mem_cons

/-- **What holds of all operations of two entries** holds of those that are left when one is attached
to the other, if it does of a caller that adopts. -/
theorem forall_mem_attach {below entry : Option Operation}
    (hbelow : ∀ o ∈ Operation.preorderAll below.toList, P o)
    (hentry : ∀ o ∈ Operation.preorderAll entry.toList, P o)
    (hadopt : ∀ p ∈ below, ∀ c ∈ entry, (p.isControlledX && c.isControlledX) = false →
      P (p.adopt c)) :
    ∀ o ∈ Operation.preorderAll (attach below entry).toList, P o := by
  rcases below with _ | p
  · exact hbelow
  · rcases entry with _ | c
    · exact hbelow
    · simp only [attach]
      split_ifs with hx
      · exact hbelow
      · refine forall_mem_entry.mpr ⟨hadopt p rfl c rfl (Bool.not_eq_true _ ▸ hx), ?_⟩
        rw [Operation.calls_adopt, Operation.preorderAll_append]
        exact List.forall_mem_append.mpr ⟨(forall_mem_entry.mp hbelow).2, hentry⟩

end Entries

/-! ### Well-formed stacks -/

/-- All operations of a stack entry are well-formed. -/
def EntryWellFormed (qubits : List Nat) (entry : Option Operation) : Prop :=
  ∀ op ∈ Operation.preorderAll entry.toList, op.WellFormed qubits

/-- **The entries of a stack are well-formed**, and directly above a measurement there is only an
absent one. -/
def StackWellFormed (qubits : List Nat) : List (Option Operation) → Prop
  | [] => True
  | entry :: below =>
    EntryWellFormed qubits entry ∧ (measures below.head?.join = true → entry = none) ∧
      StackWellFormed qubits below

theorem entryWellFormed_none (qubits : List Nat) : EntryWellFormed qubits none :=
  fun _ h => absurd h List.not_mem_nil

theorem entryWellFormed_some {qubits : List Nat} {op : Operation} :
    EntryWellFormed qubits (some op) ↔
      op.WellFormed qubits ∧ ∀ o ∈ Operation.preorderAll op.calls, o.WellFormed qubits :=
  forall_mem_entry

theorem StackWellFormed.mono {qubits qubits' : List Nat} (hsub : ∀ q ∈ qubits, q ∈ qubits') :
    ∀ {stack : List (Option Operation)}, StackWellFormed qubits stack →
      StackWellFormed qubits' stack
  | [], _ => trivial
  | _ :: _, ⟨hentry, habsent, hbelow⟩ =>
    ⟨fun op hop => (hentry op hop).mono hsub, habsent, hbelow.mono hsub⟩

theorem StackWellFormed.of_mem {qubits : List Nat} : ∀ {stack : List (Option Operation)},
    StackWellFormed qubits stack → ∀ op, some op ∈ stack → EntryWellFormed qubits (some op)
  | entry :: below, ⟨hentry, _, hbelow⟩, op, hop => by
    rcases List.mem_cons.mp hop with rfl | hop
    · exact hentry
    · exact hbelow.of_mem op hop

/-- An entry that is attached leaves a well-formed one behind. -/
theorem entryWellFormed_attach {qubits : List Nat} {below entry : Option Operation}
    (hbelow : EntryWellFormed qubits below) (hentry : EntryWellFormed qubits entry)
    (habsent : measures below = true → entry = none) :
    EntryWellFormed qubits (attach below entry) := by
  refine forall_mem_attach hbelow hentry fun p hp c hc hx => ?_
  obtain rfl := Option.mem_def.mp hp
  obtain rfl := Option.mem_def.mp hc
  -- a measurement would have an absent entry above it
  have hm : p.isMeasurement = false := by
    cases hm : p.isMeasurement with
    | false => rfl
    | true => exact absurd (habsent hm) (Option.some_ne_none c)
  have hc : c.WellFormed qubits := (entryWellFormed_some.mp hentry).1
  exact (entryWellFormed_some.mp hbelow).1.adopt hc hm hx

/-- **A tracer is sound.** -/
structure Sound (t : Tracer) : Prop where
  /-- The qubits stand in strictly increasing order. -/
  ascending : t.registers.qubits.Pairwise (· < ·)
  /-- What hangs on the stack is well-formed over them. -/
  stack : StackWellFormed t.registers.qubits t.stack

theorem sound_empty : Sound empty := ⟨List.Pairwise.nil, trivial⟩

theorem Sound.start {a : Allocator} {stack : List (Option Operation)}
    (h : Sound ⟨a, stack⟩) (source : Source) : Sound ((Tracer.mk a stack).start source).1 := by
  have habsent : Sound ⟨a, none :: stack⟩ :=
    ⟨h.ascending, entryWellFormed_none _, fun _ => rfl, h.stack⟩
  rw [start_fst]
  rcases source with reason | _ | m
  · exact habsent
  · exact habsent
  · unfold opened
    simp only
    split_ifs with hopened
    · exact habsent
    · simp only [Bool.or_eq_true, not_or, Bool.not_eq_true] at hopened
      obtain ⟨hcaller, htarget⟩ := hopened
      have hsub : ∀ q ∈ a.qubits, q ∈ (m.registered a).qubits := by
        intro q hq
        rw [Metadata.qubits_registered]
        exact Allocator.mem_qubits_mentionAll.mpr (Or.inl hq)
      refine ⟨?_, ?_, fun hm => ?_, h.stack.mono hsub⟩
      · rw [Metadata.qubits_registered]
        exact Allocator.ascending_mentionAll h.ascending
      · exact entryWellFormed_some.mpr
          ⟨Metadata.wellFormed_described htarget a, fun _ h => absurd h List.not_mem_nil⟩
      · exact absurd (hcaller.symm.trans hm) (by decide)

theorem Sound.finish {t : Tracer} (h : t.Sound) : t.finish.1.Sound := by
  obtain ⟨a, stack⟩ := t
  rcases stack with _ | ⟨entry, _ | ⟨below, stack⟩⟩
  · exact h
  · rw [finish_singleton]
    exact h
  · obtain ⟨hentry, habsent, hbelow, habsent', hstack⟩ := h.stack
    rw [finish_fst]
    refine ⟨h.ascending, entryWellFormed_attach hbelow hentry habsent, fun hm => ?_, hstack⟩
    rw [habsent' hm]
    rfl

/-- **Every run keeps a tracer sound.** -/
theorem Sound.replay : ∀ (ns : List Notification) {t : Tracer}, t.Sound → (t.replay ns).Sound
  | [], _, h => h
  | .start source :: ns, ⟨_, _⟩, h => Sound.replay ns (h.start source)
  | .finish :: ns, _, h => Sound.replay ns h.finish

theorem Sound.path {t : Tracer} (h : t.Sound) : t.executionPath.WellFormed := by
  constructor
  · have hids : (t.registers.declarations.map QubitDeclaration.id).Pairwise (· < ·) := by
      rw [Allocator.map_id_declarations]
      exact h.ascending
    exact List.pairwise_map.mp hids
  · intro op hop
    obtain ⟨root, hroot, hin⟩ := Operation.mem_preorderAll.mp hop
    obtain ⟨entry, hentry, rfl⟩ := List.mem_filterMap.mp hroot
    have hwell := h.stack.of_mem root (List.mem_reverse.mp hentry) op (by simpa using hin)
    rw [executionPath, Allocator.map_id_declarations]
    exact hwell

/-- **The path of every run is well-formed.** -/
theorem wellFormed_executionPath (ns : List Notification) :
    (Tracer.empty.replay ns).executionPath.WellFormed := by
  have hsound : (Tracer.empty.replay ns).Sound := sound_empty.replay ns
  exact hsound.path

end Tracer

end CircuitTrace
