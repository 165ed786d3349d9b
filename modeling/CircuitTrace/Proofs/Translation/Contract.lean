import CircuitTrace.Proofs.Trace.WellReported
import CircuitTrace.Proofs.Translation.Measured
import CircuitTrace.Proofs.Translation.Noted

/-! # Runs that keep the contract

A measurement and a reset have to act on one qubit, and a translation breaks off at one that does
not. What is written at a stop breaks the contract in no other way (`stopPrimitives_ne_breach`), so
a walk whose stops act on one qubit if they have to comes to its end or to an error
(`halt_visitAll_ne_breach`).

In the path of a well reported run all operations do (`actsOnOne_of_wellReported`): a measurement
acts on the qubit of its classical bit and a reset is settled. `well_reported_translates` puts it
together. -/

namespace CircuitTrace

namespace GateClass

theorem classify_eq_measurement_iff {label : String} :
    classify label = some .measurement ↔ label = "M" ∨ label = "Measure" := by
  constructor
  · intro h
    unfold classify at h
    split at h <;> simp_all
  · rintro (rfl | rfl) <;> rfl

theorem classify_eq_reset_iff {label : String} :
    classify label = some .reset ↔ label = "Reset" := by
  constructor
  · intro h
    unfold classify at h
    split at h <;> simp_all
  · rintro rfl
    rfl

end GateClass

namespace Operation

/-- **The operation keeps the contract**: if it has to act on one qubit, it does. -/
def ActsOnOne (op : Operation) : Prop :=
  ∀ cls, GateClass.classify op.gate = some cls → cls = .measurement ∨ cls = .reset →
    ∃ q, op.ownQubits = [q]

/-- **An operation that keeps the contract breaks it at no stop.** -/
theorem stopPrimitives_ne_breach {op : Operation} (h : op.ActsOnOne) (key : Nat) (b : Breach) :
    op.stopPrimitives key ≠ .error (.breach b) := by
  intro hb
  cases stopsWith_of_stopPrimitives hb with
  | qubits hcls hone hqubits =>
    obtain ⟨q, hq⟩ := h _ hcls hone
    exact hqubits q hq

end Operation

namespace Translation

theorem halt_arrive_ne_breach {op : Operation} (h : op.ActsOnOne) (depth : Nat) (t : Translation)
    (b : Breach) : (arrive (depth, op) t).halt ≠ some (.breach b) := by
  intro hb
  by_cases hop : op.Unsupported
  · obtain ⟨-, hhalt⟩ := Prod.mk.inj (outcome_arrive_of_unsupported hop depth t)
    rw [hhalt, unhandled_eq] at hb
    split_ifs at hb
    cases Option.some.inj hb
  · obtain ⟨-, hhalt⟩ := Prod.mk.inj (outcome_arrive_of_not_unsupported hop depth t)
    rw [hhalt] at hb
    rcases hps : op.stopPrimitives t.measurementKey with halt | ps <;> rw [hps] at hb
    · obtain rfl : halt = .breach b := Option.some.inj hb
      exact Operation.stopPrimitives_ne_breach h t.measurementKey b hps
    · cases hb

/-- **A walk through operations that keep the contract** ends or comes to an error. -/
theorem halt_visitAll_ne_breach {ops : List Operation}
    (h : ∀ op ∈ Operation.reachedAll ops, op.ActsOnOne) (t : Translation) (b : Breach) :
    (t.visitAll ops).halt ≠ some (.breach b) := by
  rw [visitAll_eq_tour]
  intro hb
  obtain ⟨stop, hstop, s, -, hhalt⟩ := exists_halt_arrive hb
  have hreached : stop.2 ∈ Operation.reachedAll ops := by
    rw [← Operation.map_snd_stopsAll ops 1]
    exact List.mem_map_of_mem hstop
  exact halt_arrive_ne_breach (h stop.2 hreached) stop.1 s b hhalt

end Translation

/-- **The operations of the path of a well reported run keep the contract.** -/
theorem actsOnOne_of_wellReported {ns : List Notification} (h : Tracer.empty.WellReported ns) :
    ∀ op ∈ Operation.preorderAll (Tracer.empty.replay ns).executionPath.operations,
      op.ActsOnOne := by
  intro op hop cls hcls hone
  have hsettled := Tracer.settled_of_wellReported h op hop
  have hwell := (Tracer.wellFormed_executionPath ns).operations op hop
  have hmeasured : op.isMeasurement = true → ∃ q, op.ownQubits = [q] := fun hm =>
    have ⟨q, _, hq, _⟩ := Operation.ownQubits_of_isMeasurement hwell hm
    ⟨q, hq⟩
  rcases hone with rfl | rfl
  · exact hmeasured (hsettled.measurement (GateClass.classify_eq_measurement_iff.mp hcls))
  · cases hm : op.isMeasurement with
    | true => exact hmeasured hm
    | false =>
      refine hsettled.reset ?_
      simp [Operation.isReset, GateClass.classify_eq_reset_iff.mp hcls, hm]

/-- **The path of a well reported run is translated**, or the translation gives an error: whatever
the options are, it does not break off at a measurement or a reset, since each of them acts on one
qubit. -/
theorem well_reported_translates (ns : List Notification) (h : Tracer.empty.WellReported ns)
    (config : Config) :
    let path := (Tracer.empty.replay ns).executionPath
    (∀ op ∈ Operation.preorderAll path.operations,
      op.gate = "M" ∨ op.gate = "Measure" ∨ op.gate = "Reset" → ∃ q, op.ownQubits = [q]) ∧
    ((∃ script, (translate path config).script = .ok script) ∨
      ∃ e, (translate path config).script = .error (.error e)) := by
  intro path
  have hone := actsOnOne_of_wellReported h
  refine ⟨fun op hop hgate => ?_, ?_⟩
  · rcases hgate with hgate | hgate | hgate
    · exact hone op hop .measurement (GateClass.classify_eq_measurement_iff.mpr (.inl hgate))
        (.inl rfl)
    · exact hone op hop .measurement (GateClass.classify_eq_measurement_iff.mpr (.inr hgate))
        (.inl rfl)
    · exact hone op hop .reset (GateClass.classify_eq_reset_iff.mpr hgate) (.inr rfl)
  · have hbreach := Translation.halt_visitAll_ne_breach
      (fun op hop => hone op (Operation.reachedAll_subset_preorder _ hop)) (Translation.new config)
    cases hscript : (translate path config).script with
    | ok script => exact .inl ⟨script, rfl⟩
    | error halt =>
      rw [script_translate, Walk.script_eq_error_iff] at hscript
      cases halt with
      | error e => exact .inr ⟨e, rfl⟩
      | breach b => exact absurd hscript (hbreach b)

/-- A measurement and a reset with calls, among starts without metadata and ends too many. -/
theorem well_reported_translates_of_reset :
    let ns : List Notification := [.start (.ok (some (.ofTargets "Main" []))),
      .start (.ok (some (.ofTargets "Reset" [3, 3]))),
      .start (.ok (some (Metadata.ofTargets "M" [3]).measurement)),
      .start (.ok (some (.ofTargets "Reset" [0, 1]))), .finish, .finish, .start (.error "busy"),
      .finish, .start (.ok (some (.ofTargets "X" [3]))), .finish, .finish, .finish, .finish,
      .start (.ok (some (Metadata.ofTargets "Measure" [3, 0]).measurement))]
    let path := (Tracer.empty.replay ns).executionPath
    Tracer.empty.WellReported ns ∧ ∀ config,
      (∃ script, (translate path config).script = .ok script) ∨
        ∃ e, (translate path config).script = .error (.error e) := by
  intro ns path
  have hns : Tracer.empty.WellReported ns := by decide +kernel
  exact ⟨hns, fun config => (well_reported_translates ns hns config).2⟩

end CircuitTrace
