import CircuitTrace.Register.Allocator
import Mathlib.Data.List.Nodup
import Mathlib.Tactic.SplitIfs

/-! # The qubits of an allocator

The qubits of an allocator are those that were mentioned (`mem_qubits_mentionAll`), and they stand
in strictly increasing order (`ascending_mentionAll`). A strictly increasing list is determined by
its members (`eq_of_ascending`), so it does not matter in which order qubits are mentioned, or how
often. Together with the counts of their measurements they are what is declared
(`declarations_eq_iff`). -/

namespace CircuitTrace

theorem mem_insertOnce {p q : Nat} : ∀ {qs : List Nat}, p ∈ insertOnce q qs ↔ p = q ∨ p ∈ qs
  | [] => by simp [insertOnce]
  | r :: qs => by
    unfold insertOnce
    split_ifs with hlt heq
    · exact List.mem_cons
    · subst heq
      refine ⟨Or.inr, fun h => ?_⟩
      rcases h with rfl | h
      · exact List.mem_cons_self
      · exact h
    · rw [List.mem_cons, mem_insertOnce, List.mem_cons, or_left_comm]

theorem ascending_insertOnce {q : Nat} : ∀ {qs : List Nat}, qs.Pairwise (· < ·) →
    (insertOnce q qs).Pairwise (· < ·)
  | [], _ => by simp [insertOnce]
  | r :: qs, h => by
    have hr : ∀ p ∈ qs, r < p := (List.pairwise_cons.mp h).1
    have hqs : qs.Pairwise (· < ·) := (List.pairwise_cons.mp h).2
    unfold insertOnce
    split_ifs with hlt heq
    · refine List.pairwise_cons.mpr ⟨fun p hp => ?_, h⟩
      rcases List.mem_cons.mp hp with rfl | hp
      · exact hlt
      · have := hr p hp
        omega
    · exact h
    · refine List.pairwise_cons.mpr ⟨fun p hp => ?_, ascending_insertOnce hqs⟩
      rcases mem_insertOnce.mp hp with rfl | hp
      · omega
      · exact hr p hp

/-- **A strictly increasing list is determined by its members.** -/
theorem eq_of_ascending {ps qs : List Nat} (hps : ps.Pairwise (· < ·)) (hqs : qs.Pairwise (· < ·))
    (h : ∀ q, q ∈ ps ↔ q ∈ qs) : ps = qs := by
  have hperm : ps.Perm qs :=
    (List.perm_ext_iff_of_nodup (hps.imp Nat.ne_of_lt) (hqs.imp Nat.ne_of_lt)).mpr h
  exact hperm.eq_of_pairwise (fun p q _ _ hpq hqp => absurd hpq (Nat.lt_asymm hqp)) hps hqs

namespace Allocator

@[simp] theorem measured_mentionAll : ∀ (qs : List Nat) (a : Allocator),
    (a.mentionAll qs).measured = a.measured
  | [], _ => rfl
  | q :: qs, a => measured_mentionAll qs (a.mention q)

theorem mentionAll_append (a : Allocator) (ps qs : List Nat) :
    (a.mentionAll ps).mentionAll qs = a.mentionAll (ps ++ qs) := by
  unfold mentionAll; rw [List.foldl_append]

/-- The qubits do not depend on the measurements. -/
theorem qubits_mentionAll : ∀ (qs : List Nat) (a : Allocator),
    (a.mentionAll qs).qubits = qs.foldl (fun ps q => insertOnce q ps) a.qubits
  | [], _ => rfl
  | q :: qs, a => qubits_mentionAll qs (a.mention q)

theorem mem_qubits_mentionAll {p : Nat} : ∀ {qs : List Nat} {a : Allocator},
    p ∈ (a.mentionAll qs).qubits ↔ p ∈ a.qubits ∨ p ∈ qs
  | [], a => by simp [mentionAll]
  | q :: qs, a => by
    have hstep : a.mentionAll (q :: qs) = (a.mention q).mentionAll qs := rfl
    have hone : p ∈ (a.mention q).qubits ↔ p = q ∨ p ∈ a.qubits := mem_insertOnce
    rw [hstep, mem_qubits_mentionAll, hone, List.mem_cons, or_assoc, or_left_comm]

theorem ascending_mentionAll : ∀ {qs : List Nat} {a : Allocator}, a.qubits.Pairwise (· < ·) →
    (a.mentionAll qs).qubits.Pairwise (· < ·)
  | [], _, h => h
  | q :: qs, a, h => by
    have hstep : a.mentionAll (q :: qs) = (a.mention q).mentionAll qs := rfl
    rw [hstep]
    exact ascending_mentionAll (ascending_insertOnce h)

theorem map_id_declarations (a : Allocator) :
    a.declarations.map QubitDeclaration.id = a.qubits := by
  unfold declarations
  rw [List.map_map]
  exact List.map_id a.qubits

/-- The same is declared exactly if the qubits and their counts are the same. -/
theorem declarations_eq_iff {a a' : Allocator} :
    a.declarations = a'.declarations ↔
      a.qubits = a'.qubits ∧ ∀ q ∈ a.qubits, a.classicalCount q = a'.classicalCount q := by
  constructor
  · intro h
    have hqubits : a.qubits = a'.qubits := by
      rw [← map_id_declarations, h, map_id_declarations]
    refine ⟨hqubits, fun q hq => ?_⟩
    unfold declarations at h
    rw [← hqubits] at h
    exact congrArg QubitDeclaration.numChildren (List.map_inj_left.mp h q hq)
  · rintro ⟨hqubits, hcounts⟩
    unfold declarations
    rw [← hqubits]
    exact List.map_congr_left fun q hq => congrArg (QubitDeclaration.mk q) (hcounts q hq)

end Allocator

end CircuitTrace
