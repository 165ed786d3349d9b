import CircuitTrace.Proofs.Register.Allocator
import CircuitTrace.Trace.Tracer
import Mathlib.Tactic.SplitIfs

/-! # What one notification does

The operation that metadata describe and the registers that they ask for are given in closed form
(`Metadata.described`, `Metadata.registered`, `operation_eq`), and so is the entry that a source
leads to under a caller (`opened`) and what becomes of a caller when the entry above it ends
(`attach`). In these terms:

* `start_fst`: a start puts one entry on the stack, which depends on the entry below it and on
  the allocator alone;
* `finish_fst`: an end takes one entry away and attaches it to the entry below it.

An *observer* is told of the entries that are not absent: `Tracer.watched` lists what it is told
during a run. Log records are left out of it. -/

namespace CircuitTrace

/-- A report that is meant for an observer. -/
def Report.isCall : Report → Bool
  | .logged _ => false
  | .started _ _ => true
  | .ended _ _ => true

/-! ### Metadata -/

namespace Metadata

/-- The metadata are those of a measurement that names no qubit. -/
def lacksTarget (m : Metadata) : Bool := m.isMeasurement && m.targets.isEmpty

/-- The operation that metadata describe. A measurement reads its targets and writes the next
classical bit of the first of them. -/
def described (m : Metadata) (a : Allocator) : Operation where
  gate := m.label
  displayArgs := formatArgs m.formattedNonQubitArgs
  children := none
  isControlled := m.isControlled
  isAdjoint := m.isAdjoint
  isMeasurement := m.isMeasurement
  controls := if m.isMeasurement then m.targets.map .qubit else m.controls.map .qubit
  targets :=
    if m.isMeasurement then (m.targets.take 1).map fun q => .classical q (a.classicalCount q)
    else m.targets.map .qubit

/-- The allocator after the operation: all of its qubits are mentioned, and a measurement counts
for its first target. -/
def registered (m : Metadata) (a : Allocator) : Allocator :=
  let b := a.mentionAll (m.controls ++ m.targets)
  if m.isMeasurement then { b with measured := b.measured ++ m.targets.take 1 } else b

@[simp] theorem qubits_registered (m : Metadata) (a : Allocator) :
    (m.registered a).qubits = (a.mentionAll (m.controls ++ m.targets)).qubits := by
  unfold registered; split_ifs <;> rfl

theorem operation_eq (m : Metadata) (a : Allocator) :
    m.operation a =
      if m.lacksTarget then .error ⟨m.label⟩ else .ok (m.described a, m.registered a) := by
  obtain ⟨label, isControlled, isAdjoint, isMeasurement, controls, targets, args⟩ := m
  rcases isMeasurement with _ | _
  · simp [operation, lacksTarget, described, registered, Allocator.registersFor,
      Allocator.mentionAll_append]
  · rcases targets with _ | ⟨q, qs⟩
    · simp [operation, lacksTarget]
    · simp [operation, lacksTarget, described, registered, Allocator.registersFor,
        Allocator.allocateClassical, Allocator.classicalCount, Allocator.mentionAll_append]

end Metadata

namespace Tracer

/-! ### Entries -/

/-- The entry is a measurement. -/
def measures : Option Operation → Bool
  | some op => op.isMeasurement
  | none => false

/-- **The entry of an operation that starts** under a caller, and the allocator after it. It is
absent under a measurement, without metadata, and for a measurement that names no qubit. -/
def opened (caller : Option Operation) (a : Allocator) : Source → Option Operation × Allocator
  | .ok (some m) =>
    if measures caller || m.lacksTarget then (none, a) else (some (m.described a), m.registered a)
  | .ok none => (none, a)
  | .error _ => (none, a)

theorem opened_of_measures {caller : Option Operation} (h : measures caller = true) (a : Allocator)
    (source : Source) : opened caller a source = (none, a) := by
  rcases source with reason | _ | m
  · rfl
  · rfl
  · simp [opened, h]

/-- An operation starts without calls. -/
theorem children_opened {caller : Option Operation} {a : Allocator} {source : Source}
    {op : Operation} (h : (opened caller a source).1 = some op) : op.children = none := by
  rcases source with reason | _ | m
  · cases h
  · cases h
  · unfold opened at h
    simp only at h
    split_ifs at h
    cases h
    rfl

/-- **The caller after a call has ended.** An absent call is dropped, an absent caller stays absent,
and an X under control does not adopt another one. -/
def attach : Option Operation → Option Operation → Option Operation
  | some op, some call =>
    if op.isControlledX && call.isControlledX then some op else some (op.adopt call)
  | caller, _ => caller

@[simp] theorem none_attach (call : Option Operation) : attach none call = none := rfl

theorem underMeasurement_eq (t : Tracer) : t.underMeasurement = measures t.stack.head?.join := by
  obtain ⟨a, _ | ⟨_ | op, stack⟩⟩ := t <;> rfl

/-- The entry that a tracer finds, and the records it logs on the way. -/
theorem exists_entry (a : Allocator) (stack : List (Option Operation)) (source : Source) :
    ∃ told, (Tracer.mk a stack).entry source =
        ((opened stack.head?.join a source).1, (opened stack.head?.join a source).2, told) ∧
      ∀ r ∈ told, r.isCall = false := by
  unfold entry
  rw [underMeasurement_eq]
  cases hm : measures stack.head?.join with
  | true =>
    rw [opened_of_measures hm]
    exact ⟨_, rfl, fun r hr => by rw [List.mem_singleton.mp hr]; rfl⟩
  | false =>
    rcases source with reason | _ | m
    · exact ⟨_, rfl, fun r hr => by rw [List.mem_singleton.mp hr]; rfl⟩
    · exact ⟨[], rfl, by simp⟩
    · simp only [opened, hm, Metadata.operation_eq, Bool.false_or, if_false, Bool.false_eq_true]
      split_ifs
      · exact ⟨_, rfl, fun r hr => by rw [List.mem_singleton.mp hr]; rfl⟩
      · exact ⟨[], rfl, by simp⟩

/-- **A start puts an entry on the stack.** -/
theorem start_fst (a : Allocator) (stack : List (Option Operation)) (source : Source) :
    ((Tracer.mk a stack).start source).1 =
      ⟨(opened stack.head?.join a source).2, (opened stack.head?.join a source).1 :: stack⟩ := by
  obtain ⟨told, h, -⟩ := exists_entry a stack source
  unfold start
  rw [h]

/-- An observer is told of the entry, unless it is absent. -/
theorem start_calls (a : Allocator) (stack : List (Option Operation)) (source : Source) :
    ((Tracer.mk a stack).start source).2.filter Report.isCall =
      startReport (stack.length + 1) (opened stack.head?.join a source).1 := by
  obtain ⟨told, h, htold⟩ := exists_entry a stack source
  unfold start
  rw [h]
  simp only [List.filter_append]
  rw [List.filter_eq_nil_iff.mpr (fun r hr => by simp [htold r hr]), List.nil_append]
  rcases (opened stack.head?.join a source).1 with _ | op <;> rfl

theorem start_empty (source : Source) :
    (Tracer.empty.step (.start source)).1 =
      ⟨(opened none .empty source).2, [(opened none .empty source).1]⟩ :=
  start_fst .empty [] source

theorem start_empty_calls (source : Source) :
    (Tracer.empty.step (.start source)).2.filter Report.isCall =
      startReport 1 (opened none .empty source).1 :=
  start_calls .empty [] source

/-- **An end takes an entry off the stack and attaches it to the one below.** -/
theorem finish_fst (a : Allocator) (entry below : Option Operation)
    (stack : List (Option Operation)) :
    (Tracer.mk a (entry :: below :: stack)).finish.1 = ⟨a, attach below entry :: stack⟩ := by
  rcases entry with _ | op <;> rcases below with _ | parent
  · rfl
  · rfl
  · rfl
  · unfold finish
    simp only [Bool.and_comm op.isControlledX, attach]
    split_ifs <;> rfl

/-- The report that a stack entry ends, if it is not absent. -/
def endReport (depth : Nat) : Option Operation → List Report
  | none => []
  | some op => [.ended op depth]

theorem finish_calls (a : Allocator) (entry below : Option Operation)
    (stack : List (Option Operation)) :
    (Tracer.mk a (entry :: below :: stack)).finish.2.filter Report.isCall =
      endReport (stack.length + 2) entry := by
  rcases entry with _ | op <;> rcases below with _ | parent
  · rfl
  · rfl
  · rfl
  · unfold finish
    simp only
    split_ifs <;> rfl

/-- The outermost operation does not end. -/
theorem finish_singleton (a : Allocator) (entry : Option Operation) :
    (Tracer.mk a [entry]).finish = (⟨a, [entry]⟩, []) := by
  cases entry <;> rfl

/-! ### Runs -/

theorem replay_cons (t : Tracer) (n : Notification) (ns : List Notification) :
    t.replay (n :: ns) = (t.step n).1.replay ns := rfl

theorem replay_append (t : Tracer) (ms ns : List Notification) :
    t.replay (ms ++ ns) = (t.replay ms).replay ns := by
  unfold replay; rw [List.foldl_append]

/-- **What an observer is told** while notifications come in. -/
def watched (t : Tracer) : List Notification → List Report
  | [] => []
  | n :: ns => (t.step n).2.filter Report.isCall ++ (t.step n).1.watched ns

theorem watched_append : ∀ (t : Tracer) (ms ns : List Notification),
    t.watched (ms ++ ns) = t.watched ms ++ (t.replay ms).watched ns
  | _, [], _ => rfl
  | t, m :: ms, ns => by
    rw [List.cons_append, watched, watched, watched_append, List.append_assoc, replay_cons]

end Tracer

end CircuitTrace
