import CircuitTrace.Proofs.Trace.ClassicalBits
import CircuitTrace.Proofs.Translation.Reached

/-! # Measured qubits

A measurement acts on one qubit, and a translation breaks off at one that does not. It counts the
qubits of the targets, however, and in a captured path these are not the targets of the simulator: a
measurement reads what it was reported to target, and the one target that it is left with is the
classical bit of the first of these qubits (`ownQubits_of_isMeasurement`). So the count is always
one, and the line that is written measures the first qubit whatever else was to be measured
(`measures_iff`).

To say so for whole runs, the operations of a path are traced back to the metadata that they started
with (`Tracer.keptMetadata`). The heading of a measurement still tells all of its targets, so it
does not matter that its own targets have changed. `translated_measurements_iff` puts it together,
and `exists_unmeasured` is a run in which a qubit is lost. -/

namespace CircuitTrace

/-! ### Metadata of what is kept -/

/-- The heading of every operation that the metadata describe. -/
def Metadata.heading (m : Metadata) : Operation := (m.described .empty).heading

theorem Metadata.heading_described (m : Metadata) (a : Allocator) :
    (m.described a).heading = m.heading := rfl

/-- **The heading of a measurement tells what it was reported to target.** -/
theorem Metadata.of_heading_eq {m : Metadata} {op : Operation} (hm : m.isMeasurement = true)
    (h : op.heading = m.heading) :
    op.gate = m.label ∧ op.isMeasurement = true ∧ op.controls = m.targets.map .qubit := by
  have hgate : op.gate = m.label := congrArg Operation.gate h
  have hmeasurement : op.isMeasurement = m.isMeasurement := congrArg Operation.isMeasurement h
  have hcontrols : op.heading.controls = m.heading.controls := by rw [h]
  refine ⟨hgate, hmeasurement.trans hm, hcontrols.trans ?_⟩
  simp [heading, Operation.heading, described, hm]

namespace Tracer

/-- **The metadata of the operations that a run keeps**, in the order of their starts. -/
def keptMetadata (t : Tracer) : List Notification → List Metadata
  | [] => []
  | .start source :: ns =>
    let started := (t.step (.start source)).1
    (if started.Loses started.depth ns then [] else (t.begins source).toList) ++
      started.keptMetadata ns
  | .finish :: ns => (t.step .finish).1.keptMetadata ns

/-- An entry has the heading of its metadata. -/
theorem map_heading_entry (t : Tracer) (source : Source) :
    (t.entry source).1.toList.map Operation.heading =
      (t.begins source).toList.map Metadata.heading := by
  obtain ⟨a, stack⟩ := t
  obtain ⟨told, hentry, -⟩ := exists_entry a stack source
  rw [hentry, opened_of_begun]
  unfold begins
  rcases begun (measures stack.head?.join) source with _ | m
  · rfl
  · exact congrArg (fun o => [o]) (m.heading_described a)

theorem map_heading_kept : ∀ (ns : List Notification) (t : Tracer),
    (t.kept ns).map Operation.heading = (t.keptMetadata ns).map Metadata.heading
  | [], _ => rfl
  | .start source :: ns, t => by
    rw [kept, keptMetadata, List.map_append, List.map_append, map_heading_kept ns]
    congr 1
    split_ifs
    · rfl
    · exact map_heading_entry t source
  | .finish :: ns, t => by
    rw [kept, keptMetadata]
    exact map_heading_kept ns _

end Tracer

/-! ### The qubit of a measurement -/

namespace Operation

/-- **A captured measurement acts on one qubit**, the first one that it reads. -/
theorem ownQubits_of_isMeasurement {qubits : List Nat} {op : Operation}
    (h : op.WellFormed qubits) (hm : op.isMeasurement = true) :
    ∃ q qs, op.ownQubits = [q] ∧ op.controls = (q :: qs).map .qubit := by
  obtain ⟨-, q, c, qs, htargets, hcontrols⟩ := h.measurement hm
  refine ⟨q, qs, ?_, hcontrols⟩
  unfold ownQubits targetQubits
  rw [htargets]
  rfl

theorem classPrimitives_of_ownQubits {op : Operation} {q : Nat} (h : op.ownQubits = [q])
    (key : Nat) : op.classPrimitives key .measurement = .ok [⟨.measure q key, []⟩] := by
  have hone : op.onlyQubit .measurement = .ok q := onlyQubit_eq_ok_iff.mpr h
  rw [classPrimitives, hone]
  rfl

end Operation

namespace Translation

/-- **An operation measures a qubit** in the translation of a path: it contributes a line that
measures it. -/
def Measures (config : Config) (ops before : List Operation) (op : Operation) (q : Nat) : Prop :=
  ∃ key, Contributes config ops before op ⟨.measure q key, []⟩

/-- A measurement measures the one qubit that it acts on. -/
theorem measures_iff {config : Config} {ops before after : List Operation} {op : Operation}
    {p q : Nat} (h : ((new config).visitAll ops).halt = none)
    (hreached : Operation.reachedAll ops = before ++ op :: after)
    (hcls : GateClass.classify op.gate = some .measurement) (hown : op.ownQubits = [p]) :
    Measures config ops before op q ↔ q = p := by
  have hleaf : op.isLeaf = true := by simp [Operation.isLeaf, hcls]
  obtain ⟨key, block, hblock, hcontributes⟩ := exists_block_of_leaf h hreached hleaf
  rw [Operation.leafPrimitives_of_classify hcls,
    Operation.classPrimitives_of_ownQubits hown] at hblock
  cases hblock
  unfold Measures
  simp only [hcontributes, List.mem_singleton]
  constructor
  · rintro ⟨k, hk⟩
    cases hk
    rfl
  · rintro rfl
    exact ⟨key, rfl⟩

end Translation

/-- All members of a list are the first one exactly if no two of them differ. -/
theorem forall_mem_eq_head_iff {q : Nat} {qs : List Nat} :
    (∀ r ∈ q :: qs, r = q) ↔ ∀ r ∈ q :: qs, ∀ s ∈ q :: qs, r = s := by
  constructor
  · intro h r hr s hs
    rw [h r hr, h s hs]
  · intro h r hr
    exact h r hr q List.mem_cons_self

/-- **A translated measurement measures the first qubit that it was reported to target**, and no
other: all of its targets are measured exactly if they are the same qubit. The operations of a path
are those that the run keeps, so that this is what becomes of every measurement that is kept and
reached. -/
theorem translated_measurements_iff (ns : List Notification) (config : Config) (text : String)
    (h : (translate (Tracer.empty.replay ns).executionPath config).script = .ok text) :
    let path := (Tracer.empty.replay ns).executionPath
    text = ((Translation.new config).visitAll path.operations).translation.render path.numQubits ∧
      (Operation.preorderAll path.operations).map Operation.heading =
        (Tracer.empty.keptMetadata ns).map Metadata.heading ∧
      ∀ m ∈ Tracer.empty.keptMetadata ns, m.isMeasurement = true →
        (m.label = "M" ∨ m.label = "Measure") →
        ∀ before op after, Operation.reachedAll path.operations = before ++ op :: after →
          op.heading = m.heading →
          (∀ q, Translation.Measures config path.operations before op q ↔
            m.targets.head? = some q) ∧
          ((∀ q ∈ m.targets, Translation.Measures config path.operations before op q) ↔
            ∀ q ∈ m.targets, ∀ r ∈ m.targets, q = r) := by
  intro path
  obtain ⟨hhalt, htext⟩ := translate_eq_ok h
  have hwell : path.WellFormed := Tracer.wellFormed_executionPath ns
  have hkept := Tracer.preorder_executionPath ns
  rw [Tracer.map_heading_kept] at hkept
  refine ⟨htext, hkept, ?_⟩
  intro m _ hm hlabel before op after hreached hheading
  obtain ⟨hgate, hmeasurement, hcontrols⟩ := Metadata.of_heading_eq hm hheading
  have hmem : op ∈ Operation.reachedAll path.operations := by rw [hreached]; simp
  obtain ⟨q, qs, hown, hread⟩ := Operation.ownQubits_of_isMeasurement
    (hwell.operations op (Operation.reachedAll_subset_preorder _ hmem)) hmeasurement
  -- what was reported as targets has become the controls, and these are part of the heading
  have htargets : m.targets = q :: qs := by
    rw [hcontrols] at hread
    exact List.map_injective_iff.mpr (fun _ _ heq => Register.qubit.inj heq) hread
  have hcls : GateClass.classify op.gate = some .measurement := by
    rw [hgate]
    rcases hlabel with hlabel | hlabel <;> rw [hlabel] <;> rfl
  have hmeasures : ∀ r, Translation.Measures config path.operations before op r ↔ r = q :=
    fun r => Translation.measures_iff hhalt hreached hcls hown
  rw [htargets]
  constructor
  · intro r
    rw [hmeasures, List.head?_cons, Option.some_inj, eq_comm]
  · simp only [hmeasures]
    exact forall_mem_eq_head_iff

/-- Two measurements under a caller: one that names a qubit twice, and one of two qubits. -/
theorem translated_measurements_iff_of_two :
    let ns : List Notification := [.start (.ok (some (.ofTargets "Main" []))),
      .start (.ok (some (Metadata.ofTargets "M" [1, 1]).measurement)), .finish,
      .start (.ok (some (Metadata.ofTargets "Measure" [0, 1]).measurement)), .finish, .finish]
    let path := (Tracer.empty.replay ns).executionPath
    ∃ main m m', Operation.reachedAll path.operations = [main, m, m'] ∧
      (∀ q ∈ [1, 1], Translation.Measures .default path.operations [main] m q) ∧
      ¬ ∀ q ∈ [0, 1], Translation.Measures .default path.operations [main, m] m' q := by
  intro ns path
  have hhalt : ((Translation.new .default).visitAll path.operations).halt = none := by
    decide +kernel
  have hok : (translate path .default).script = .ok _ := translate_flat rfl hhalt
  obtain ⟨-, -, hmeasured⟩ := translated_measurements_iff ns .default _ hok
  refine ⟨_, _, _, rfl, ?_, ?_⟩
  · refine (hmeasured (Metadata.ofTargets "M" [1, 1]).measurement (by decide +kernel) rfl
      (.inl rfl) [_] _ [_] rfl rfl).2.mpr ?_
    decide
  · refine (hmeasured (Metadata.ofTargets "Measure" [0, 1]).measurement (by decide +kernel) rfl
      (.inr rfl) [_, _] _ [] rfl rfl).2.not.mpr ?_
    decide

private def twoTargets : List Notification := [.start (.ok (some (.ofTargets "Main" []))),
  .start (.ok (some (Metadata.ofTargets "M" [0, 1]).measurement)), .finish, .finish]

/-- **A measured qubit may be lost**: the measurement of two qubits is translated as that of the
first one. -/
theorem exists_unmeasured :
    ∃ (ns : List Notification) (m : Metadata) (main op : Operation),
      ns = [.start (.ok (some (.ofTargets "Main" []))), .start (.ok (some m)), .finish,
        .finish] ∧
      m = (Metadata.ofTargets "M" [0, 1]).measurement ∧ m ∈ Tracer.empty.keptMetadata ns ∧
      let path := (Tracer.empty.replay ns).executionPath
      Operation.reachedAll path.operations = [main, op] ∧ op.heading = m.heading ∧
      (translate path .default).script = .ok (unlines ["# Qubits: 2", "", "import cirq",
        "import numpy as np", "from cirq.ops import measure",
        "qubits = cirq.LineQubit.range(2)", "circuit = cirq.Circuit()",
        "circuit.append([measure(qubits[0], key='0')])"]) ∧
      1 ∈ m.targets ∧ ¬ Translation.Measures .default path.operations [main] op 1 := by
  have hhalt : ((Translation.new .default).visitAll
      (Tracer.empty.replay twoTargets).executionPath.operations).halt = none := by
    decide +kernel
  refine ⟨twoTargets, _, _, _, rfl, rfl, by decide +kernel, rfl, rfl,
    (translate_flat rfl hhalt).trans ?_, by decide, fun hmeasures => ?_⟩
  · exact congrArg (fun lines => Except.ok (unlines lines)) (by decide +kernel)
  · have hone : 1 = 0 := (Translation.measures_iff hhalt rfl rfl rfl).mp hmeasures
    exact absurd hone (by decide)

end CircuitTrace
