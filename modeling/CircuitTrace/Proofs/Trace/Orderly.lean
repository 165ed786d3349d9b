import CircuitTrace.Gate.Class
import CircuitTrace.Proofs.Operation.Wires
import CircuitTrace.Proofs.Trace.CallTree
import Mathlib.Data.List.Forall2

/-! # Orderly runs

In an *orderly* run no operation starts under an absent one, and what starts below an operation with
a class keeps to its qubits (`Operation.Covers`, `Tracer.Orderly`). What an operation covers is
judged by the operation as it was when it started: the operations on the stack take in the qubits of
their calls, so a run is followed together with its open operations in their first form
(`openAfter`, `forall₂_grownFrom_replay`).

A tree of calls opens and closes operations in pairs (`openAfter_calls`), so a run over trees is
orderly only if the runs over their parts are (`orderly_call`, `orderly_forest_cons`). All operations
that start in a tree are covered by the open ones with a class (`covers_of_orderly`), and so is what
the tree brings back to its caller (`covers_result`). -/

namespace CircuitTrace

/-! ### Open operations -/

/-- The open operations after a report, the innermost first, as they were when they started. -/
def Report.nest (under : List Operation) : Report → List Operation
  | .logged _ => under
  | .started op _ => op :: under
  | .ended _ _ => under.tail

/-- **The open operations after reports**, the innermost first, as they were when they started. -/
def openAfter (under : List Operation) (rs : List Report) : List Operation :=
  rs.foldl Report.nest under

@[simp] theorem openAfter_nil (under : List Operation) : openAfter under [] = under := rfl

theorem openAfter_append (under : List Operation) (rs ss : List Report) :
    openAfter under (rs ++ ss) = openAfter (openAfter under rs) ss := by
  unfold openAfter; rw [List.foldl_append]

theorem openAfter_filter : ∀ (rs : List Report) (under : List Operation),
    openAfter under (rs.filter Report.isCall) = openAfter under rs
  | [], _ => rfl
  | .logged _ :: rs, under => openAfter_filter rs under
  | .started op _ :: rs, under => openAfter_filter rs (op :: under)
  | .ended _ _ :: rs, under => openAfter_filter rs under.tail

namespace Operation

/-- **An operation of a class covers another one** if the qubits that the other one targets are
targets of it or, unless it has to act on one qubit, controls of it. -/
def Covers (p : Operation) (cls : GateClass) (op : Operation) : Prop :=
  ∀ r ∈ op.targets, r.isClassical = false →
    r ∈ p.targets ∨ (cls ≠ .measurement ∧ cls ≠ .reset ∧ r ∈ p.controls)

instance decidableCovers (p : Operation) (cls : GateClass) (op : Operation) :
    Decidable (p.Covers cls op) :=
  inferInstanceAs (Decidable (∀ r ∈ op.targets, _))

theorem Covers.adopt_right {p op c : Operation} {cls : GateClass} (h : p.Covers cls op)
    (hc : p.Covers cls c) : p.Covers cls (op.adopt c) := by
  obtain ⟨new, hnew, hmem⟩ := exists_targets_adopt op c
  intro r hr
  rw [hnew, List.mem_append] at hr
  rcases hr with hr | hr
  · exact h r hr
  · exact hc r (hmem r hr).1

theorem Covers.adopt_left {p op : Operation} {cls : GateClass} (h : p.Covers cls op)
    (c : Operation) : (p.adopt c).Covers cls op := by
  obtain ⟨new, hnew, -⟩ := exists_targets_adopt p c
  intro r hr hq
  rcases h r hr hq with hp | hp
  · exact Or.inl (hnew ▸ List.mem_append_left new hp)
  · exact Or.inr hp

/-- The operation has taken in calls since it started. -/
def GrownFrom (op first : Operation) : Prop :=
  op.gate = first.gate ∧ op.controls = first.controls ∧ first.targets <+: op.targets

theorem GrownFrom.refl (op : Operation) : op.GrownFrom op := ⟨rfl, rfl, List.prefix_rfl⟩

theorem GrownFrom.adopt {op first : Operation} (h : op.GrownFrom first) (c : Operation) :
    (op.adopt c).GrownFrom first := by
  obtain ⟨hgate, hcontrols, htargets⟩ := h
  obtain ⟨new, hnew, -⟩ := exists_targets_adopt op c
  refine ⟨hgate, hcontrols, htargets.trans ?_⟩
  rw [hnew]
  exact List.prefix_append op.targets new

end Operation

namespace Tracer

/-! ### The operations on the stack -/

theorem exists_attach (op : Operation) (call : Option Operation) :
    ∃ op', attach (some op) call = some op' ∧
      (op' = op ∨ ∃ c, call = some c ∧ op' = op.adopt c) := by
  rcases call with _ | c
  · exact ⟨op, rfl, Or.inl rfl⟩
  · simp only [attach]
    split_ifs
    · exact ⟨op, rfl, Or.inl rfl⟩
    · exact ⟨op.adopt c, rfl, Or.inr ⟨c, rfl, rfl⟩⟩

theorem forall₂_grownFrom_attach {below call : Option Operation}
    {rest : List (Option Operation)} {under : List Operation}
    (h : List.Forall₂ Operation.GrownFrom ((below :: rest).filterMap id) under) :
    List.Forall₂ Operation.GrownFrom ((attach below call :: rest).filterMap id) under := by
  rcases below with _ | op
  · exact h
  · obtain ⟨op', hattach, hop'⟩ := exists_attach op call
    have hcons : List.Forall₂ Operation.GrownFrom (op :: rest.filterMap id) under := h
    rw [hattach]
    rcases hcons with _ | ⟨hop, hrest⟩
    refine List.Forall₂.cons ?_ hrest
    rcases hop' with rfl | ⟨c, -, rfl⟩
    · exact hop
    · exact hop.adopt c

/-- A notification keeps the open operations those on the stack. -/
theorem forall₂_grownFrom_step {t : Tracer} {under : List Operation}
    (h : List.Forall₂ Operation.GrownFrom (t.stack.filterMap id) under) (n : Notification) :
    List.Forall₂ Operation.GrownFrom ((t.step n).1.stack.filterMap id)
      (openAfter under (t.step n).2) := by
  obtain ⟨a, stack⟩ := t
  rw [← openAfter_filter]
  rcases n with source | _
  · rw [step, start_fst, start_calls]
    rcases (opened stack.head?.join a source).1 with _ | op
    · exact h
    · exact List.Forall₂.cons (Operation.GrownFrom.refl op) h
  · rw [step]
    rcases stack with _ | ⟨entry, _ | ⟨below, stack⟩⟩
    · exact h
    · rw [finish_singleton]
      exact h
    · rw [finish_fst, finish_calls]
      refine forall₂_grownFrom_attach ?_
      rcases entry with _ | op
      · exact h
      · have hcons : List.Forall₂ Operation.GrownFrom (op :: (below :: stack).filterMap id) under :=
          h
        rcases hcons with _ | ⟨-, hrest⟩
        exact hrest

/-- **In every run the open operations are those on the stack**, which have grown since. -/
theorem forall₂_grownFrom_replay : ∀ (ns : List Notification) {t : Tracer} {under : List Operation},
    List.Forall₂ Operation.GrownFrom (t.stack.filterMap id) under →
      List.Forall₂ Operation.GrownFrom ((t.replay ns).stack.filterMap id)
        (openAfter under (t.watched ns))
  | [], _, _, h => h
  | n :: ns, t, under, h => by
    rw [replay_cons, watched, openAfter_append, openAfter_filter]
    exact forall₂_grownFrom_replay ns (forall₂_grownFrom_step h n)

/-! ### Orderly runs -/

/-- **A start is admitted** while operations are open: the innermost one is not absent, and the
operation that starts, if there is one, is covered by every open operation with a class. -/
structure Admits (t : Tracer) (under : List Operation) (source : Source) : Prop where
  /-- The innermost operation is not absent. -/
  present : t.stack.head? ≠ some none
  /-- The operation is covered. -/
  covered : ∀ op depth, .started op depth ∈ (t.step (.start source)).2 → ∀ p ∈ under, ∀ cls,
    GateClass.classify p.gate = some cls → p.Covers cls op

/-- **A run is orderly** if every start is admitted when it comes in. -/
def Orderly (t : Tracer) (under : List Operation) : List Notification → Prop
  | [] => True
  | n :: ns =>
    (∀ source, n = .start source → t.Admits under source) ∧
      (t.step n).1.Orderly (openAfter under (t.step n).2) ns

theorem orderly_append : ∀ (t : Tracer) (under : List Operation) (ms ns : List Notification),
    t.Orderly under (ms ++ ns) ↔
      t.Orderly under ms ∧ (t.replay ms).Orderly (openAfter under (t.watched ms)) ns
  | t, under, [], ns => by simp [Orderly, watched, replay]
  | t, under, m :: ms, ns => by
    rw [List.cons_append, Orderly, Orderly, orderly_append, watched, openAfter_append,
      openAfter_filter, replay_cons, and_assoc]

theorem started_mem_startReport {op : Operation} {d depth : Nat} {entry : Option Operation} :
    .started op d ∈ startReport depth entry ↔ d = depth ∧ entry = some op := by
  rcases entry with _ | op'
  · simp [startReport]
  · simp [startReport, and_comm, eq_comm]

theorem started_notMem_endReport {op : Operation} {d depth : Nat} : ∀ entry : Option Operation,
    .started op d ∉ endReport depth entry
  | none => by simp [endReport]
  | some _ => by simp [endReport]

theorem mem_start_iff {a : Allocator} {stack : List (Option Operation)} {source : Source}
    {op : Operation} {depth : Nat} :
    .started op depth ∈ ((Tracer.mk a stack).step (.start source)).2 ↔
      depth = stack.length + 1 ∧ (opened stack.head?.join a source).1 = some op := by
  have hmem : .started op depth ∈ ((Tracer.mk a stack).start source).2 ↔
      .started op depth ∈ ((Tracer.mk a stack).start source).2.filter Report.isCall := by
    simp [List.mem_filter, Report.isCall]
  rw [step, hmem, start_calls]
  exact started_mem_startReport

/-! Whether a run is orderly can be computed. -/

theorem admits_iff {t : Tracer} {under : List Operation} {source : Source} :
    t.Admits under source ↔ t.stack.head? ≠ some none ∧
      ∀ op ∈ (opened t.stack.head?.join t.registers source).1.toList, ∀ p ∈ under,
        ∀ cls ∈ (GateClass.classify p.gate).toList, p.Covers cls op := by
  obtain ⟨a, stack⟩ := t
  constructor
  · rintro ⟨hpresent, hcovered⟩
    refine ⟨hpresent, fun op hop p hp cls hcls => ?_⟩
    exact hcovered op _ (mem_start_iff.mpr ⟨rfl, Option.mem_toList.mp hop⟩) p hp cls
      (Option.mem_toList.mp hcls)
  · rintro ⟨hpresent, hcovered⟩
    refine ⟨hpresent, fun op depth hop p hp cls hcls => ?_⟩
    exact hcovered op (Option.mem_toList.mpr (mem_start_iff.mp hop).2) p hp cls
      (Option.mem_toList.mpr hcls)

instance decidableAdmits (t : Tracer) (under : List Operation) (source : Source) :
    Decidable (t.Admits under source) :=
  decidable_of_iff _ admits_iff.symm

/-- Decides whether a run is orderly. -/
instance decidableOrderly : ∀ (ns : List Notification) (t : Tracer) (under : List Operation),
    Decidable (t.Orderly under ns)
  | [], _, _ => isTrue trivial
  | .start source :: ns, t, under =>
    have := decidableOrderly ns (t.step (.start source)).1
      (openAfter under (t.step (.start source)).2)
    decidable_of_iff (t.Admits under source ∧ (t.step (.start source)).1.Orderly
      (openAfter under (t.step (.start source)).2) ns) (by simp [Orderly])
  | .finish :: ns, t, under =>
    have := decidableOrderly ns (t.step .finish).1 (openAfter under (t.step .finish).2)
    decidable_of_iff ((t.step .finish).1.Orderly (openAfter under (t.step .finish).2) ns)
      (by simp [Orderly])

end Tracer

namespace CallTree

open Tracer

/-! ### What a caller becomes -/

theorem results_none : ∀ (cs : List CallTree) (a : Allocator), (results none a cs).1 = none
  | [], _ => rfl
  | _ :: cs, a => by rw [results, none_attach]; exact results_none cs _

theorem exists_results_gate : ∀ (cs : List CallTree) (op : Operation) (a : Allocator),
    ∃ op', (results (some op) a cs).1 = some op' ∧ op'.gate = op.gate
  | [], op, _ => ⟨op, rfl, rfl⟩
  | c :: cs, op, a => by
    obtain ⟨op₁, hattach, hop₁⟩ := exists_attach op (c.result (some op) a).1
    have hgate : op₁.gate = op.gate := by
      rcases hop₁ with rfl | ⟨call, -, rfl⟩ <;> rfl
    rw [results, hattach]
    obtain ⟨op', hop', hgate'⟩ := exists_results_gate cs op₁ (c.result (some op) a).2
    exact ⟨op', hop', hgate'.trans hgate⟩

/-! ### Reports of trees -/

mutual

/-- **A tree opens and closes operations in pairs.** -/
theorem openAfter_calls (under : List Operation) (depth : Nat) (caller : Option Operation)
    (a : Allocator) : ∀ c : CallTree, openAfter under (c.calls depth caller a) = under
  | call source inner => by
    rw [calls, openAfter_append, openAfter_append, openAfter_callsAll]
    rcases (opened caller a source).1 with _ | op
    · rw [results_none]; rfl
    · obtain ⟨op', hop', -⟩ := exists_results_gate inner op (opened caller a source).2
      rw [hop']; rfl

theorem openAfter_callsAll (under : List Operation) (depth : Nat) (caller : Option Operation)
    (a : Allocator) : ∀ cs : List CallTree, openAfter under (callsAll depth caller a cs) = under
  | [] => rfl
  | c :: cs => by
    rw [callsAll, openAfter_append, openAfter_calls under depth caller a c, openAfter_callsAll]

end

theorem orderly_forest_cons {a : Allocator} {top : Option Operation}
    {below : List (Option Operation)} {under : List Operation} {c : CallTree} {cs : List CallTree}
    (h : (Tracer.mk a (top :: below)).Orderly under (forest (c :: cs))) :
    (Tracer.mk a (top :: below)).Orderly under c.notifications ∧
      (Tracer.mk (c.result top a).2 (attach top (c.result top a).1 :: below)).Orderly under
        (forest cs) := by
  rw [forest, orderly_append, replay_notifications, watched_notifications, openAfter_calls] at h
  exact h

/-- What an orderly run over a tree says of the outermost call and of its own calls. -/
theorem orderly_call {a : Allocator} {top : Option Operation} {below : List (Option Operation)}
    {under : List Operation} {source : Source} {inner : List CallTree}
    (h : (Tracer.mk a (top :: below)).Orderly under (call source inner).notifications) :
    top ≠ none ∧
      (∀ op, (opened top a source).1 = some op → ∀ p ∈ under, ∀ cls,
        GateClass.classify p.gate = some cls → p.Covers cls op) ∧
      (Tracer.mk (opened top a source).2 ((opened top a source).1 :: top :: below)).Orderly
        ((opened top a source).1.toList ++ under) (forest inner) := by
  rw [notifications, Orderly, orderly_append] at h
  obtain ⟨hadmits, hinner, -⟩ := h
  obtain ⟨hpresent, hcovered⟩ := hadmits source rfl
  refine ⟨fun htop => hpresent (by rw [htop]; rfl), ?_, ?_⟩
  · intro op hop
    exact hcovered op _ (mem_start_iff.mpr ⟨rfl, hop⟩)
  · have hopen : openAfter under ((Tracer.mk a (top :: below)).start source).2 =
        (opened top a source).1.toList ++ under := by
      rw [← openAfter_filter, start_calls]
      show openAfter under (startReport _ (opened top a source).1) = _
      rcases (opened top a source).1 with _ | op <;> rfl
    rw [step, start_fst, hopen] at hinner
    exact hinner

/-- Nothing starts under an absent operation. -/
theorem eq_nil_of_orderly {a : Allocator} {below : List (Option Operation)}
    {under : List Operation} :
    ∀ {cs : List CallTree}, (Tracer.mk a (none :: below)).Orderly under (forest cs) → cs = []
  | [], _ => rfl
  | .call _ _ :: _, h => absurd rfl (orderly_call (orderly_forest_cons h).1).1

theorem forest_append (cs ds : List CallTree) : forest (cs ++ ds) = forest cs ++ forest ds := by
  induction cs with
  | nil => rfl
  | cons c cs ih => rw [List.cons_append, forest, forest, ih, List.append_assoc]

/-- In an orderly run over trees, all of them but the first one and the calls of the first one run
under the outermost operation. -/
theorem orderly_under_root {c : CallTree} {cs : List CallTree}
    (h : Tracer.empty.Orderly [] (forest (c :: cs))) :
    (Tracer.mk (opened none .empty c.source).2 [(opened none .empty c.source).1]).Orderly
      (opened none .empty c.source).1.toList (forest (c.inner ++ cs)) := by
  have hopen : openAfter [] (Tracer.empty.step (.start c.source)).2 =
      (opened none .empty c.source).1.toList := by
    rw [← openAfter_filter, start_empty_calls]
    rcases (opened none .empty c.source).1 with _ | op <;> rfl
  rw [forest_cons, Orderly, start_empty, hopen, orderly_append, replay_forest_under,
    watched_forest_under, openAfter_callsAll, Orderly, step, finish_singleton] at h
  obtain ⟨-, hinner, -, hcs⟩ := h
  rw [forest_append, orderly_append, replay_forest_under, watched_forest_under, openAfter_callsAll]
  exact ⟨hinner, hcs⟩

/-! ### Covered calls -/

mutual

/-- **Everything that starts in a tree is covered** by the open operations with a class. -/
theorem covers_of_orderly {p : Operation} {cls : GateClass}
    (hcls : GateClass.classify p.gate = some cls) {a : Allocator} {top : Option Operation}
    {below : List (Option Operation)} {under : List Operation} (hp : p ∈ under) (depth : Nat) :
    ∀ c : CallTree, (Tracer.mk a (top :: below)).Orderly under c.notifications →
      ∀ op d, .started op d ∈ c.calls depth top a → p.Covers cls op
  | call source inner, h, op, d, hop => by
    obtain ⟨-, hentry, hinner⟩ := orderly_call h
    rw [calls, List.mem_append, List.mem_append] at hop
    rcases hop with (hop | hop) | hop
    · exact hentry op (started_mem_startReport.mp hop).2 p hp cls hcls
    · have hp' := List.mem_append_right (opened top a source).1.toList hp
      exact covers_of_orderly_forest hcls hp' (depth + 1) inner hinner op d hop
    · exact absurd hop (started_notMem_endReport _)

theorem covers_of_orderly_forest {p : Operation} {cls : GateClass}
    (hcls : GateClass.classify p.gate = some cls) {a : Allocator} {top : Option Operation}
    {below : List (Option Operation)} {under : List Operation} (hp : p ∈ under) (depth : Nat) :
    ∀ cs : List CallTree, (Tracer.mk a (top :: below)).Orderly under (forest cs) →
      ∀ op d, .started op d ∈ callsAll depth top a cs → p.Covers cls op
  | c :: cs, h, op, d, hop => by
    obtain ⟨hfirst, hrest⟩ := orderly_forest_cons h
    rw [callsAll, List.mem_append] at hop
    rcases hop with hop | hop
    · exact covers_of_orderly hcls hp depth c hfirst op d hop
    · exact covers_of_orderly_forest hcls hp depth cs hrest op d hop

end

mutual

/-- What a tree brings back to its caller is covered if everything that starts in it is. -/
theorem covers_result {p : Operation} {cls : GateClass} {a : Allocator} {caller : Option Operation}
    {depth : Nat} : ∀ {c : CallTree},
    (∀ op d, .started op d ∈ c.calls depth caller a → p.Covers cls op) →
      ∀ {r : Operation}, (c.result caller a).1 = some r → p.Covers cls r
  | call source inner, h, r, hr => by
    rw [result] at hr
    simp only [calls, List.mem_append] at h
    rcases hopened : (opened caller a source).1 with _ | entry <;> rw [hopened] at hr h
    · rw [results_none] at hr
      cases hr
    · have hentry := h entry depth (Or.inl (Or.inl (List.mem_singleton.mpr rfl)))
      exact covers_results hentry (fun op d hop => h op d (Or.inl (Or.inr hop))) hr

theorem covers_results {p : Operation} {cls : GateClass} {a : Allocator} {caller : Operation}
    {depth : Nat} (hcaller : p.Covers cls caller) : ∀ {cs : List CallTree},
    (∀ op d, .started op d ∈ callsAll depth (some caller) a cs → p.Covers cls op) →
      ∀ {r : Operation}, (results (some caller) a cs).1 = some r → p.Covers cls r
  | [], _, r, hr => by cases hr; exact hcaller
  | c :: cs, h, r, hr => by
    simp only [callsAll, List.mem_append] at h
    rw [results] at hr
    obtain ⟨caller', hattach, hcaller'⟩ := exists_attach caller (c.result (some caller) a).1
    rw [hattach] at hr h
    have hnext : p.Covers cls caller' := by
      rcases hcaller' with rfl | ⟨call, hcall, rfl⟩
      · exact hcaller
      · exact hcaller.adopt_right (covers_result (fun op d hop => h op d (Or.inl hop)) hcall)
    exact covers_results hnext (fun op d hop => h op d (Or.inr hop)) hr

end

/-! ### Callers that take everything in -/

/-- The results of calls that are not absent, in order. -/
def returned (caller : Option Operation) (a : Allocator) : List CallTree → List Operation
  | [] => []
  | c :: cs =>
    (c.result caller a).1.toList ++
      returned (attach caller (c.result caller a).1) (c.result caller a).2 cs

/-- **A caller that is no X under control adopts all results.** -/
theorem results_eq_foldl_adopt : ∀ (cs : List CallTree) (op : Operation) (a : Allocator),
    op.isControlledX = false →
      (results (some op) a cs).1 = some ((returned (some op) a cs).foldl Operation.adopt op)
  | [], _, _, _ => rfl
  | c :: cs, op, a, h => by
    rw [results, returned, List.foldl_append]
    rcases (c.result (some op) a).1 with _ | call
    · exact results_eq_foldl_adopt cs op _ h
    · have hattach : attach (some op) (some call) = some (op.adopt call) := by
        simp only [attach, h, Bool.false_and, if_false, Bool.false_eq_true]
      rw [hattach]
      exact results_eq_foldl_adopt cs (op.adopt call) _ h

end CallTree

end CircuitTrace
