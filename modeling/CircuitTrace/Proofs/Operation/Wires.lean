import CircuitTrace.Operation.Wires
import Mathlib.Data.List.Nodup
import Mathlib.Tactic.SplitIfs

/-! # Distinct qubits and adopted targets

`firstSeen` keeps the first occurrence of every number (`nodup_firstSeen`), so it does not change on
a list without repetition (`firstSeen_of_nodup`), and what stands behind a list matters only if it
brings in something new (`firstSeen_append_eq_iff`).

A call that is adopted puts some of its qubits behind the targets of its caller
(`exists_targets_adopt`, `qubit_mem_targets_adopt`), so the qubits that the caller acts on stay
where they were and are followed by the new ones (`targetQubits_prefix_adopt`). They are the same as
before exactly if the call brings in no qubit that was not there (`targetQubits_adopt_eq_iff`). -/

namespace CircuitTrace

/-! ### Numbers without repetition -/

theorem mem_addOnce {seen : List Nat} {p q : Nat} : q ∈ addOnce seen p ↔ q ∈ seen ∨ q = p := by
  unfold addOnce
  split_ifs with h
  · rw [List.contains_iff_mem] at h
    constructor
    · exact Or.inl
    · rintro (hq | rfl)
      · exact hq
      · exact h
  · simp

theorem addOnce_of_mem {seen : List Nat} {q : Nat} (h : q ∈ seen) : addOnce seen q = seen := by
  unfold addOnce; rw [if_pos (List.contains_iff_mem.mpr h)]

theorem addOnce_of_notMem {seen : List Nat} {q : Nat} (h : q ∉ seen) :
    addOnce seen q = seen ++ [q] := by
  unfold addOnce; rw [if_neg (fun hc => h (List.contains_iff_mem.mp hc))]

theorem mem_foldl_addOnce {q : Nat} : ∀ {qs seen : List Nat},
    q ∈ qs.foldl addOnce seen ↔ q ∈ seen ∨ q ∈ qs
  | [], seen => by simp
  | p :: qs, seen => by
    rw [List.foldl_cons, mem_foldl_addOnce, mem_addOnce, List.mem_cons, or_assoc]

theorem prefix_foldl_addOnce : ∀ (qs seen : List Nat), seen <+: qs.foldl addOnce seen
  | [], seen => List.prefix_rfl
  | q :: qs, seen => by
    refine List.IsPrefix.trans ?_ (prefix_foldl_addOnce qs (addOnce seen q))
    by_cases h : q ∈ seen
    · exact ⟨[], by rw [addOnce_of_mem h, List.append_nil]⟩
    · exact ⟨[q], by rw [addOnce_of_notMem h]⟩

theorem foldl_addOnce_of_subset : ∀ {qs seen : List Nat}, (∀ q ∈ qs, q ∈ seen) →
    qs.foldl addOnce seen = seen
  | [], seen, _ => rfl
  | q :: qs, seen, h => by
    rw [List.foldl_cons, addOnce_of_mem (h q List.mem_cons_self)]
    exact foldl_addOnce_of_subset fun p hp => h p (List.mem_cons_of_mem q hp)

theorem foldl_addOnce_of_nodup : ∀ {qs seen : List Nat}, (seen ++ qs).Nodup →
    qs.foldl addOnce seen = seen ++ qs
  | [], seen, _ => by simp
  | q :: qs, seen, h => by
    have hq : q ∉ seen := fun hq =>
      (List.nodup_append.mp h).2.2 q hq q List.mem_cons_self rfl
    rw [List.foldl_cons, addOnce_of_notMem hq]
    rw [foldl_addOnce_of_nodup (by simpa using h)]
    simp

theorem nodup_foldl_addOnce : ∀ (qs : List Nat) {seen : List Nat}, seen.Nodup →
    (qs.foldl addOnce seen).Nodup
  | [], _, h => h
  | q :: qs, seen, h => by
    refine nodup_foldl_addOnce qs ?_
    by_cases hq : q ∈ seen
    · rwa [addOnce_of_mem hq]
    · rw [addOnce_of_notMem hq]
      exact h.append (List.nodup_singleton q) (List.disjoint_singleton.mpr hq)

theorem nodup_firstSeen (qs : List Nat) : (firstSeen qs).Nodup :=
  nodup_foldl_addOnce qs List.nodup_nil

theorem mem_firstSeen {q : Nat} {qs : List Nat} : q ∈ firstSeen qs ↔ q ∈ qs := by
  unfold firstSeen; rw [mem_foldl_addOnce]; simp

theorem firstSeen_append (ps qs : List Nat) :
    firstSeen (ps ++ qs) = qs.foldl addOnce (firstSeen ps) := by
  unfold firstSeen; rw [List.foldl_append]

theorem firstSeen_prefix_append (ps qs : List Nat) : firstSeen ps <+: firstSeen (ps ++ qs) := by
  rw [firstSeen_append]; exact prefix_foldl_addOnce qs _

/-- **What stands behind a list changes nothing** exactly if it is part of the list. -/
theorem firstSeen_append_eq_iff {ps qs : List Nat} :
    firstSeen (ps ++ qs) = firstSeen ps ↔ ∀ q ∈ qs, q ∈ ps := by
  constructor
  · intro h q hq
    rw [← mem_firstSeen, ← h, mem_firstSeen]
    exact List.mem_append_right ps hq
  · intro h
    rw [firstSeen_append]
    exact foldl_addOnce_of_subset fun q hq => mem_firstSeen.mpr (h q hq)

theorem firstSeen_of_nodup {qs : List Nat} (h : qs.Nodup) : firstSeen qs = qs := by
  unfold firstSeen
  rw [foldl_addOnce_of_nodup (by simpa using h), List.nil_append]

namespace Operation

/-! ### The targets of a call -/

@[simp] theorem gate_adopt (p c : Operation) : (p.adopt c).gate = p.gate := rfl
@[simp] theorem displayArgs_adopt (p c : Operation) : (p.adopt c).displayArgs = p.displayArgs := rfl
@[simp] theorem calls_adopt (p c : Operation) : (p.adopt c).calls = p.calls ++ [c] := rfl

theorem exists_foldl_coverTarget : ∀ (rs ts : List Register),
    ∃ new, rs.foldl coverTarget ts = ts ++ new ∧ ∀ r ∈ new, r ∈ rs ∧ r.isClassical = false
  | [], ts => ⟨[], by simp, by simp⟩
  | r :: rs, ts => by
    obtain ⟨new, hnew, hmem⟩ := exists_foldl_coverTarget rs (coverTarget ts r)
    rw [List.foldl_cons, hnew]
    unfold coverTarget
    split_ifs with h
    · exact ⟨new, rfl, fun s hs => ⟨List.mem_cons_of_mem r (hmem s hs).1, (hmem s hs).2⟩⟩
    · refine ⟨r :: new, by simp, fun s hs => ?_⟩
      rcases List.mem_cons.mp hs with rfl | hs
      · simp only [Bool.or_eq_true, not_or, Bool.not_eq_true] at h
        exact ⟨List.mem_cons_self, h.1⟩
      · exact ⟨List.mem_cons_of_mem r (hmem s hs).1, (hmem s hs).2⟩

theorem qubit_mem_coverTarget {ts : List Register} {r : Register} {q : Nat} :
    .qubit q ∈ coverTarget ts r ↔ .qubit q ∈ ts ∨ r = .qubit q := by
  unfold coverTarget
  split_ifs with h
  · refine ⟨Or.inl, fun hq => hq.elim id ?_⟩
    rintro rfl
    simpa [Register.isClassical] using h
  · simp [eq_comm]

theorem qubit_mem_foldl_coverTarget {q : Nat} : ∀ {rs ts : List Register},
    .qubit q ∈ rs.foldl coverTarget ts ↔ .qubit q ∈ ts ∨ .qubit q ∈ rs
  | [], ts => by simp
  | r :: rs, ts => by
    rw [List.foldl_cons, qubit_mem_foldl_coverTarget, qubit_mem_coverTarget, List.mem_cons,
      or_assoc, eq_comm (a := r)]

/-- The targets of a caller stay where they are and are followed by qubits of the call. -/
theorem exists_targets_adopt (p c : Operation) :
    ∃ new, (p.adopt c).targets = p.targets ++ new ∧
      ∀ r ∈ new, r ∈ c.targets ∧ r.isClassical = false :=
  exists_foldl_coverTarget c.targets p.targets

theorem qubit_mem_targets_adopt {p c : Operation} {q : Nat} :
    .qubit q ∈ (p.adopt c).targets ↔ .qubit q ∈ p.targets ∨ .qubit q ∈ c.targets :=
  qubit_mem_foldl_coverTarget

/-! ### The qubits of a caller -/

theorem mem_targetQubits {p : Operation} {except : List Nat} {q : Nat} :
    q ∈ p.targetQubits except ↔ q ∈ p.targets.map Register.qubitId ∧ q ∉ except := by
  unfold targetQubits
  rw [mem_firstSeen, List.mem_filter]
  simp

/-- **The qubits that an operation acts on and those that control it are all different.** -/
theorem nodup_actedQubits_append (p : Operation) : (p.actedQubits ++ p.controlQubits).Nodup :=
  (nodup_firstSeen _).append (nodup_firstSeen _) fun _ hacted => (mem_targetQubits.mp hacted).2

theorem qubit_mem_targetQubits {p : Operation} {q : Nat} (h : .qubit q ∈ p.targets) :
    q ∈ p.ownQubits :=
  mem_targetQubits.mpr ⟨List.mem_map.mpr ⟨_, h, rfl⟩, by simp⟩

@[simp] theorem controlQubits_adopt (p c : Operation) :
    (p.adopt c).controlQubits = p.controlQubits := rfl

theorem targetQubits_prefix_adopt (p c : Operation) (except : List Nat) :
    p.targetQubits except <+: (p.adopt c).targetQubits except := by
  obtain ⟨new, hnew, -⟩ := exists_targets_adopt p c
  unfold targetQubits
  rw [hnew, List.map_append, List.filter_append]
  exact firstSeen_prefix_append _ _

/-- **The qubits that a caller acts on stay the same** exactly if the call brings in no qubit that
counts and was not there. -/
theorem targetQubits_adopt_eq_iff {p c : Operation} {except : List Nat} :
    (p.adopt c).targetQubits except = p.targetQubits except ↔
      ∀ q, .qubit q ∈ c.targets → q ∈ p.ownQubits ∨ q ∈ except := by
  constructor
  · intro h q hq
    by_cases he : q ∈ except
    · exact Or.inr he
    · left
      have hmem : q ∈ (p.adopt c).targetQubits except :=
        mem_targetQubits.mpr
          ⟨List.mem_map.mpr ⟨.qubit q, qubit_mem_targets_adopt.mpr (Or.inr hq), rfl⟩, he⟩
      rw [h, mem_targetQubits] at hmem
      exact mem_targetQubits.mpr ⟨hmem.1, by simp⟩
  · intro h
    obtain ⟨new, hnew, hmem⟩ := exists_targets_adopt p c
    unfold targetQubits
    rw [hnew, List.map_append, List.filter_append, firstSeen_append_eq_iff]
    intro q hq
    obtain ⟨hq, he⟩ := List.mem_filter.mp hq
    obtain ⟨r, hr, rfl⟩ := List.mem_map.mp hq
    obtain ⟨hrc, hcl⟩ := hmem r hr
    rcases r with q | ⟨q, b⟩
    · have hown := (h q hrc).resolve_right (by simpa [Register.qubitId] using he)
      exact List.mem_filter.mpr ⟨(mem_targetQubits.mp hown).1, he⟩
    · exact absurd hcl (by simp [Register.isClassical])

end Operation

end CircuitTrace
