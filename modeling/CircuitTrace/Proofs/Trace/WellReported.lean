import CircuitTrace.Proofs.Trace.ClassicalBits
import CircuitTrace.Proofs.Trace.WellFormed
import Mathlib.Data.List.Dedup

/-! # Well reported runs

A measurement and a reset act on one qubit each. For a measurement that is reported as one the tracer
sees to it, but the targets of a reset are those that were reported, followed by those of its calls.
A run is *well reported* (`Tracer.WellReported`) if no operation is only labelled a measurement and
if a reset targets one qubit, with all that starts while it is open.

In such a run the operations that hang on the stack are *settled* (`Operation.Settled`), and what
stands above a reset keeps to its qubit (`Tracer.StackSettled`). A reset therefore adopts nothing
that it does not target already, and an end preserves this as well as a start
(`StackSettled.start`, `StackSettled.finish`, `StackSettled.replay`). -/

namespace CircuitTrace

/-! ### Resets -/

/-- The metadata are those of a reset that is not reported as a measurement. -/
def Metadata.isReset (m : Metadata) : Bool := m.label = "Reset" && !m.isMeasurement

namespace Operation

/-- The operation is a reset that is not reported as a measurement. -/
def isReset (op : Operation) : Bool := op.gate = "Reset" && !op.isMeasurement

@[simp] theorem isReset_adopt (p c : Operation) : (p.adopt c).isReset = p.isReset := rfl

@[simp] theorem isReset_described (m : Metadata) (a : Allocator) :
    (m.described a).isReset = m.isReset := rfl

/-- The qubits that the operation targets are among those that another one acts on. -/
def KeepsTo (op p : Operation) : Prop := ∀ q, .qubit q ∈ op.targets → q ∈ p.ownQubits

theorem KeepsTo.adopt {op c p : Operation} (h : op.KeepsTo p) (hc : c.KeepsTo p) :
    (op.adopt c).KeepsTo p := by
  intro q hq
  rcases qubit_mem_targets_adopt.mp hq with hq | hq
  · exact h q hq
  · exact hc q hq

/-- **An operation is settled**: what is labelled a measurement is one, and a reset acts on one
qubit. -/
structure Settled (op : Operation) : Prop where
  measurement : op.gate = "M" ∨ op.gate = "Measure" → op.isMeasurement = true
  reset : op.isReset = true → ∃ q, op.ownQubits = [q]

/-- An operation stays settled when it adopts a call, if the call keeps to the qubit of a reset. -/
theorem Settled.adopt {p c : Operation} (h : p.Settled) (hc : p.isReset = true → c.KeepsTo p) :
    (p.adopt c).Settled := by
  refine ⟨h.measurement, fun hp => ?_⟩
  obtain ⟨q, hq⟩ := h.reset hp
  have hown : (p.adopt c).ownQubits = p.ownQubits :=
    targetQubits_adopt_eq_iff.mpr fun r hr => .inl (hc hp r hr)
  exact ⟨q, hown.trans hq⟩

end Operation

namespace Tracer

/-! ### Reports -/

/-- **The metadata of a start are sound** in a state of the tracer: what is labelled a measurement is
reported as one, a reset has one target, however often it is named, and what starts above a reset on
the stack targets the qubit of the reset only, unless it is a measurement. -/
structure SoundlyReported (t : Tracer) (m : Metadata) : Prop where
  measurement : m.label = "M" ∨ m.label = "Measure" → m.isMeasurement = true
  reset : m.isReset = true → m.targets.dedup.length = 1
  above : m.isMeasurement = false →
    ∀ p, some p ∈ t.stack → p.isReset = true → ∀ q ∈ m.targets, .qubit q ∈ p.targets

/-- **A run is well reported** if the metadata of every operation that starts are sound. What has no
metadata and what starts inside a measurement does not count. -/
def WellReported (t : Tracer) : List Notification → Prop
  | [] => True
  | .start source :: ns =>
    (∀ m ∈ t.begins source, t.SoundlyReported m) ∧ (t.step (.start source)).1.WellReported ns
  | .finish :: ns => (t.step .finish).1.WellReported ns

/-! Whether a run is well reported can be computed. -/

theorem soundlyReported_iff {t : Tracer} {m : Metadata} :
    t.SoundlyReported m ↔
      (m.label = "M" ∨ m.label = "Measure" → m.isMeasurement = true) ∧
        (m.isReset = true → m.targets.dedup.length = 1) ∧
        (m.isMeasurement = false → ∀ entry ∈ t.stack, ∀ p ∈ entry, p.isReset = true →
          ∀ q ∈ m.targets, .qubit q ∈ p.targets) := by
  constructor
  · rintro ⟨hmeasurement, hreset, habove⟩
    refine ⟨hmeasurement, hreset, fun hm entry hentry p hp => habove hm p ?_⟩
    rwa [← Option.mem_def.mp hp]
  · rintro ⟨hmeasurement, hreset, habove⟩
    exact ⟨hmeasurement, hreset, fun hm p hp => habove hm (some p) hp p rfl⟩

instance decidableSoundlyReported (t : Tracer) (m : Metadata) : Decidable (t.SoundlyReported m) :=
  decidable_of_iff _ soundlyReported_iff.symm

/-- Decides whether a run is well reported. -/
instance decidableWellReported : ∀ (ns : List Notification) (t : Tracer),
    Decidable (t.WellReported ns)
  | [], _ => isTrue trivial
  | .start source :: ns, t =>
    have := decidableWellReported ns (t.step (.start source)).1
    inferInstanceAs (Decidable ((∀ m ∈ t.begins source, t.SoundlyReported m) ∧
      (t.step (.start source)).1.WellReported ns))
  | .finish :: ns, t => decidableWellReported ns (t.step .finish).1

/-! ### The stack -/

/-- All operations of a stack entry are settled. -/
def EntrySettled (entry : Option Operation) : Prop :=
  ∀ op ∈ Operation.preorderAll entry.toList, op.Settled

/-- **The entries of a stack are settled**, and they keep to the qubits of the resets below them. -/
def StackSettled : List (Option Operation) → Prop
  | [] => True
  | entry :: below =>
    EntrySettled entry ∧
      (∀ c ∈ entry, ∀ p, some p ∈ below → p.isReset = true → c.KeepsTo p) ∧ StackSettled below

theorem stackSettled_cons {entry : Option Operation} {below : List (Option Operation)} :
    StackSettled (entry :: below) ↔ EntrySettled entry ∧
      (∀ c ∈ entry, ∀ p, some p ∈ below → p.isReset = true → c.KeepsTo p) ∧
        StackSettled below := Iff.rfl

theorem entrySettled_none : EntrySettled none := fun _ h => absurd h List.not_mem_nil

theorem ownQubits_described {m : Metadata} (h : m.isMeasurement = false) (a : Allocator) :
    (m.described a).ownQubits = firstSeen m.targets := by
  have hids : (m.targets.map Register.qubit).map Register.qubitId = m.targets := by
    simp [Function.comp_def, Register.qubitId]
  unfold Operation.ownQubits Operation.targetQubits
  simp [Metadata.described, h, hids]

/-- **What metadata describe is settled** if they are sound, and it keeps to the resets below. -/
theorem SoundlyReported.described {t : Tracer} {m : Metadata} (h : t.SoundlyReported m)
    (a : Allocator) :
    (m.described a).Settled ∧
      ∀ p, some p ∈ t.stack → p.isReset = true → (m.described a).KeepsTo p := by
  refine ⟨⟨h.measurement, fun hreset => ?_⟩, fun p hp hreset q hq => ?_⟩
  · have hm : m.isMeasurement = false := by simp_all [Metadata.isReset]
    -- both lists name the targets once each
    have hperm : (firstSeen m.targets).Perm m.targets.dedup :=
      (List.perm_ext_iff_of_nodup (nodup_firstSeen _) m.targets.nodup_dedup).mpr fun q => by
        rw [mem_firstSeen, List.mem_dedup]
    rw [ownQubits_described hm]
    exact List.length_eq_one_iff.mp (hperm.length_eq.trans (h.reset hreset))
  · cases hm : m.isMeasurement with
    | true =>
      -- the target of a measurement is a classical bit
      have hbit : Register.qubit q ∈ m.targets.map fun r => .classical r (a.classicalCount r) :=
        List.mem_of_mem_take (by simpa [Metadata.described, hm] using hq)
      simp at hbit
    | false =>
      have hmem : q ∈ m.targets := by simpa [Metadata.described, hm] using hq
      exact Operation.qubit_mem_targetQubits (h.above hm p hp hreset q hmem)

/-- An entry that is attached leaves a settled one behind. -/
theorem entrySettled_attach {below entry : Option Operation} (hbelow : EntrySettled below)
    (hentry : EntrySettled entry)
    (hkeeps : ∀ c ∈ entry, ∀ p ∈ below, p.isReset = true → c.KeepsTo p) :
    EntrySettled (attach below entry) := by
  refine forall_mem_attach hbelow hentry fun p hp c hc _ => ?_
  obtain rfl := Option.mem_def.mp hp
  exact (forall_mem_entry.mp hbelow).1.adopt (hkeeps c hc p rfl)

theorem keepsTo_attach {below entry : Option Operation} {p : Operation}
    (hbelow : ∀ c ∈ below, c.KeepsTo p) (hentry : ∀ c ∈ entry, c.KeepsTo p) :
    ∀ c ∈ attach below entry, c.KeepsTo p := by
  rcases below with _ | b
  · exact hbelow
  · obtain ⟨b', hattach, rfl | ⟨c, rfl, rfl⟩⟩ := exists_attach b entry
    · rw [hattach]
      exact hbelow
    · rw [hattach]
      rintro _ ⟨⟩
      exact (hbelow b rfl).adopt (hentry c rfl)

theorem StackSettled.start {t : Tracer} {source : Source} (h : StackSettled t.stack)
    (hm : ∀ m ∈ t.begins source, t.SoundlyReported m) :
    StackSettled (t.step (.start source)).1.stack := by
  obtain ⟨a, stack⟩ := t
  rw [step, start_fst, opened_of_begun]
  rcases hbegun : begun (measures stack.head?.join) source with _ | m
  · exact stackSettled_cons.mpr ⟨entrySettled_none, nofun, h⟩
  · obtain ⟨hsettled, hkeeps⟩ := (hm m hbegun).described a
    refine stackSettled_cons.mpr ⟨forall_mem_entry.mpr ⟨hsettled, nofun⟩, ?_, h⟩
    rintro _ ⟨⟩
    exact hkeeps

theorem StackSettled.finish {t : Tracer} (h : StackSettled t.stack) :
    StackSettled (t.step .finish).1.stack := by
  obtain ⟨a, _ | ⟨entry, _ | ⟨below, stack⟩⟩⟩ := t
  · exact h
  · rw [step, finish_singleton]
    exact h
  · obtain ⟨hentry, hkeeps, hbelow, hkeeps', hstack⟩ := h
    rw [step, finish_fst]
    refine stackSettled_cons.mpr ⟨entrySettled_attach hbelow hentry fun c hc p hp => ?_,
      fun c hc p hp hreset => ?_, hstack⟩
    · exact hkeeps c hc p (hp ▸ List.mem_cons_self)
    · exact keepsTo_attach (fun c hc => hkeeps' c hc p hp hreset)
        (fun c hc => hkeeps c hc p (List.mem_cons_of_mem _ hp) hreset) c hc

/-- **A well reported run keeps the stack settled.** -/
theorem StackSettled.replay : ∀ (ns : List Notification) {t : Tracer}, t.WellReported ns →
    StackSettled t.stack → StackSettled (t.replay ns).stack
  | [], _, _, h => h
  | .start _ :: ns, _, hns, h => StackSettled.replay ns hns.2 (h.start hns.1)
  | .finish :: ns, _, hns, h => StackSettled.replay ns hns h.finish

theorem StackSettled.of_mem {op : Operation} : ∀ {stack : List (Option Operation)},
    StackSettled stack → some op ∈ stack → EntrySettled (some op)
  | entry :: _, ⟨hentry, _, hbelow⟩, hop => by
    rcases List.mem_cons.mp hop with rfl | hop
    · exact hentry
    · exact hbelow.of_mem hop

/-- **All operations of the path of a well reported run are settled.** -/
theorem settled_of_wellReported {ns : List Notification} (h : empty.WellReported ns) :
    ∀ op ∈ Operation.preorderAll (empty.replay ns).executionPath.operations, op.Settled := by
  intro op hop
  obtain ⟨root, hroot, hin⟩ := Operation.mem_preorderAll.mp hop
  obtain ⟨entry, hentry, rfl⟩ := List.mem_filterMap.mp hroot
  have hsettled : StackSettled (empty.replay ns).stack := StackSettled.replay ns h trivial
  exact hsettled.of_mem (List.mem_reverse.mp hentry) op (by simpa using hin)

end Tracer

end CircuitTrace
