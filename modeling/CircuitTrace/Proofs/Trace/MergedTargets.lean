import CircuitTrace.Proofs.Trace.Kept

/-! # The targets of a caller

A caller covers the qubits of its calls one call at a time, and each call has covered those of its
own calls by then. What comes of this is said in one go: behind the targets that an operation starts
with stand the qubits that are new among the start targets of all operations below it, each once, in
the order in which they first occur (`Operation.newTargets`).

* `foldl_coverTarget`: covering registers one by one appends the new ones;
* `covered_covered`: covering what a call has covered is covering what the call has;
* `Operation.Merged`: trees and the operations as they started, callers before their calls;
* `targets_executionPath`: the targets of every operation of a path. -/

namespace CircuitTrace

namespace Operation

/-! ### New targets -/

/-- **The registers that are new**: the qubits that are not among the targets, each once and in the
order in which they first occur. -/
def newTargets (targets rs : List Register) : List Register :=
  (rs.filter fun r => !r.isClassical && !targets.contains r).eraseDups

theorem mem_newTargets {targets rs : List Register} {r : Register} :
    r ∈ newTargets targets rs ↔ r ∈ rs ∧ r.isClassical = false ∧ r ∉ targets := by
  simp [newTargets]

theorem newTargets_cons_of_covered {targets rs : List Register} {r : Register}
    (h : (r.isClassical || targets.contains r) = true) :
    newTargets targets (r :: rs) = newTargets targets rs := by
  have hskipped : ¬ (!r.isClassical && !targets.contains r) = true := by
    rw [← Bool.not_or, h]
    simp
  unfold newTargets
  rw [List.filter_cons, if_neg hskipped]

/-- A new register comes first, and it is not new any more. -/
theorem newTargets_cons_of_new {targets rs : List Register} {r : Register}
    (h : (r.isClassical || targets.contains r) = false) :
    newTargets targets (r :: rs) = r :: newTargets (targets ++ [r]) rs := by
  have hnew : (!r.isClassical && !targets.contains r) = true := by
    rw [← Bool.not_or, h]
    rfl
  have hlater : ∀ s : Register,
      (!(s == r) && (!s.isClassical && !targets.contains s)) =
        (!s.isClassical && !(targets ++ [r]).contains s) := by
    intro s
    rw [List.contains_append, List.contains_cons, List.contains_nil, Bool.or_false]
    cases s.isClassical <;> cases targets.contains s <;> simp
  unfold newTargets
  rw [List.filter_cons, if_pos hnew, List.eraseDups_cons, List.filter_filter]
  simp only [hlater]

/-- **Covering registers one by one** appends those that are new. -/
theorem foldl_coverTarget (targets rs : List Register) :
    rs.foldl coverTarget targets = targets ++ newTargets targets rs := by
  induction rs generalizing targets with
  | nil => simp [newTargets]
  | cons r rs ih =>
    cases h : (r.isClassical || targets.contains r) with
    | true =>
      have hcover : coverTarget targets r = targets := by simp only [coverTarget, h, if_true]
      rw [List.foldl_cons, hcover, ih, newTargets_cons_of_covered h]
    | false =>
      have hcover : coverTarget targets r = targets ++ [r] := by
        simp only [coverTarget, h, Bool.false_eq_true, if_false]
      rw [List.foldl_cons, hcover, ih, newTargets_cons_of_new h, List.append_assoc]
      rfl

/-- Covered are the targets and the qubits among the registers. -/
theorem mem_foldl_coverTarget {targets rs : List Register} {r : Register} :
    r ∈ rs.foldl coverTarget targets ↔ r ∈ targets ∨ r ∈ rs ∧ r.isClassical = false := by
  rw [foldl_coverTarget, List.mem_append, mem_newTargets]
  by_cases hr : r ∈ targets <;> simp [hr]

/-- Targets that are covered already need not be covered again. -/
theorem foldl_coverTarget_filter {covered targets rs : List Register}
    (h : ∀ r ∈ targets, r.isClassical = false → r ∈ covered) :
    (newTargets targets rs).foldl coverTarget covered = rs.foldl coverTarget covered := by
  induction rs generalizing targets covered with
  | nil => rfl
  | cons r rs ih =>
    cases hr : (r.isClassical || targets.contains r) with
    | true =>
      have hcovered : (r.isClassical || covered.contains r) = true := by
        cases hclassical : r.isClassical with
        | true => rfl
        | false =>
          have hmem : r ∈ targets := by simpa [hclassical] using hr
          simpa using h r hmem hclassical
      have hcover : coverTarget covered r = covered := by
        simp only [coverTarget, hcovered, if_true]
      rw [newTargets_cons_of_covered hr, List.foldl_cons, hcover]
      exact ih h
    | false =>
      have hquantum : r.isClassical = false := (Bool.or_eq_false_iff.mp hr).1
      rw [newTargets_cons_of_new hr, List.foldl_cons, List.foldl_cons]
      refine ih fun s hs hclassical => ?_
      have hone : coverTarget covered r = [r].foldl coverTarget covered := rfl
      rw [hone, mem_foldl_coverTarget]
      rcases List.mem_append.mp hs with hs | hs
      · exact Or.inl (h s hs hclassical)
      · exact Or.inr ⟨hs, hclassical⟩

/-- **Covering what a call has covered** is covering the targets that the call started with and
then what the call has covered. -/
theorem covered_covered (targets own rs : List Register) :
    (own ++ newTargets own rs).foldl coverTarget targets =
      (own ++ rs).foldl coverTarget targets := by
  rw [List.foldl_append, List.foldl_append]
  refine foldl_coverTarget_filter fun r hr hclassical => ?_
  exact mem_foldl_coverTarget.mpr (Or.inr ⟨hr, hclassical⟩)

/-! ### Merged trees -/

/-- An operation of two lists one after the other is in the first or in the second. -/
theorem split_append {ops ops' before after : List Operation} {op : Operation}
    (h : ops ++ ops' = before ++ op :: after) :
    (∃ left, ops = before ++ op :: left) ∨
      ∃ skipped, before = ops ++ skipped ∧ ops' = skipped ++ op :: after := by
  rcases List.append_eq_append_iff.mp h with ⟨skipped, hbefore, hops'⟩ | ⟨left, hops, hafter⟩
  · exact Or.inr ⟨skipped, hbefore, hops'⟩
  · rcases left with _ | ⟨o, left⟩
    · refine Or.inr ⟨[], ?_, hafter.symm⟩
      simpa using hops.symm
    · obtain ⟨rfl, -⟩ := List.cons.inj hafter
      exact Or.inl ⟨left, hops⟩

/-- **Trees that have come about by adoption**, and their operations as these started, callers
before their calls. A caller has kept its heading, and behind the targets it started with it has the
new ones among the start targets of the operations below it. -/
inductive Merged : List Operation → List Operation → Prop
  | nil : Merged [] []
  | cons {op first : Operation} {ops below rest : List Operation} :
    op.heading = first.heading →
      op.targets = first.targets ++ newTargets first.targets (below.flatMap targets) →
        Merged op.calls below → Merged ops rest → Merged (op :: ops) (first :: (below ++ rest))

namespace Merged

theorem append {ops ops' starts starts' : List Operation} (h : Merged ops starts)
    (h' : Merged ops' starts') : Merged (ops ++ ops') (starts ++ starts') := by
  induction h with
  | nil => exact h'
  | cons hheading htargets hcalls _ _ ih =>
    rw [List.cons_append, List.cons_append, List.append_assoc]
    exact .cons hheading htargets hcalls ih

theorem started {op : Operation} (h : op.children = none) : Merged [op] [op] := by
  have hcalls : op.calls = [] := by rw [calls, h]; rfl
  have htargets : op.targets =
      op.targets ++ newTargets op.targets (([] : List Operation).flatMap targets) := by
    simp [newTargets]
  have hbelow : Merged op.calls [] := by
    rw [hcalls]
    exact .nil
  exact .cons rfl htargets hbelow .nil

/-- A tree by itself. -/
theorem singleton {op : Operation} {starts : List Operation} (h : Merged [op] starts) :
    ∃ first below, starts = first :: below ∧ op.heading = first.heading ∧
      op.targets = first.targets ++ newTargets first.targets (below.flatMap targets) ∧
        Merged op.calls below := by
  rcases h with _ | ⟨hheading, htargets, hcalls, hrest⟩
  cases hrest
  exact ⟨_, _, by rw [List.append_nil], hheading, htargets, hcalls⟩

/-- **Adoption merges** the targets of everything in the tree that is adopted. -/
theorem adopt {p c : Operation} {starts starts' : List Operation} (h : Merged [p] starts)
    (h' : Merged [c] starts') : Merged [p.adopt c] (starts ++ starts') := by
  obtain ⟨first, below, rfl, hheading, htargets, hcalls⟩ := h.singleton
  obtain ⟨first', below', rfl, -, htargets', -⟩ := id h'.singleton
  have hmerged : (p.adopt c).targets = first.targets ++
      newTargets first.targets ((below ++ first' :: below').flatMap targets) :=
    calc (p.adopt c).targets
      _ = c.targets.foldl coverTarget p.targets := rfl
      _ = (first'.targets ++ below'.flatMap targets).foldl coverTarget
            ((below.flatMap targets).foldl coverTarget first.targets) := by
          rw [htargets', covered_covered, htargets, ← foldl_coverTarget]
      _ = ((below ++ first' :: below').flatMap targets).foldl coverTarget first.targets := by
          rw [List.flatMap_append, List.flatMap_cons, ← List.foldl_append]
      _ = _ := foldl_coverTarget _ _
  have hadopted : Merged (p.adopt c).calls (below ++ first' :: below') := hcalls.append h'
  have htree : Merged [p.adopt c] (first :: ((below ++ first' :: below') ++ [])) :=
    .cons (hheading ▸ heading_adopt p c) hmerged hadopted .nil
  simpa using htree

theorem map_heading {ops starts : List Operation} (h : Merged ops starts) :
    (preorderAll ops).map heading = starts.map heading := by
  induction h with
  | nil => rfl
  | cons hheading _ _ _ ihcalls ihrest =>
    rw [preorderAll_cons, preorder_eq]
    simp [hheading, ihcalls, ihrest]

/-- **An operation at any depth**: where it stands among the operations of the trees, there it
stands among the starts, with the starts of the operations below it right behind. -/
theorem at_split {ops starts : List Operation} (h : Merged ops starts) {before after : List Operation}
    {op : Operation} (hop : preorderAll ops = before ++ op :: after) :
    ∃ startsBefore first below startsAfter,
      starts = startsBefore ++ first :: (below ++ startsAfter) ∧
      before.map heading = startsBefore.map heading ∧ op.heading = first.heading ∧
      (preorderAll op.calls).map heading = below.map heading ∧
      op.targets = first.targets ++ newTargets first.targets (below.flatMap targets) := by
  induction h generalizing before after with
  | nil => simp at hop
  | @cons root first ops below rest hheading htargets hcalls hrest ihcalls ihrest =>
    rw [preorderAll_cons, preorder_eq, List.cons_append] at hop
    rcases before with _ | ⟨b, before⟩
    · obtain ⟨rfl, -⟩ := List.cons.inj hop
      exact ⟨[], first, below, rest, rfl, rfl, hheading, hcalls.map_heading, htargets⟩
    · obtain ⟨rfl, hbehind⟩ := List.cons.inj hop
      rcases split_append hbehind with ⟨left, hbelow⟩ | ⟨skipped, hbefore, hbeside⟩
      · obtain ⟨startsBefore, first', below', startsAfter, rfl, hbefore, hop'⟩ := ihcalls hbelow
        refine ⟨first :: startsBefore, first', below', startsAfter ++ rest, ?_, ?_, hop'⟩
        · simp
        · simp [hheading, hbefore]
      · obtain ⟨startsBefore, first', below', startsAfter, rfl, hskipped, hop'⟩ := ihrest hbeside
        refine ⟨first :: (below ++ startsBefore), first', below', startsAfter, ?_, ?_, hop'⟩
        · simp
        · simp [hbefore, hheading, hcalls.map_heading, hskipped]

end Merged

end Operation

namespace Tracer

theorem accounts_merged : Accounts Operation.Merged where
  nil := .nil
  append := .append
  started := .started
  adopt := .adopt

/-- The operations of a path have come about by adoption from those that the run keeps. -/
theorem merged_executionPath (ns : List Notification) :
    Operation.Merged (empty.replay ns).executionPath.operations (empty.kept ns) :=
  accounts_merged.replay ns empty [] .nil

/-- **The targets of every operation of a path.** An operation stands where its start stands among
the starts that the run keeps, and the starts of the operations below it stand right behind. Its
targets are those it started with, followed by the qubits that are new among the start targets of
the operations below it, each once and in the order in which they first occur there. -/
theorem targets_executionPath (ns : List Notification) (before : List Operation) (op : Operation)
    (after : List Operation)
    (hop : Operation.preorderAll (empty.replay ns).executionPath.operations =
      before ++ op :: after) :
    ∃ startsBefore first below startsAfter,
      empty.kept ns = startsBefore ++ first :: (below ++ startsAfter) ∧
      before.map Operation.heading = startsBefore.map Operation.heading ∧
      op.heading = first.heading ∧
      (Operation.preorderAll op.calls).map Operation.heading = below.map Operation.heading ∧
      op.targets = first.targets ++
        Operation.newTargets first.targets (below.flatMap Operation.targets) :=
  (merged_executionPath ns).at_split hop

/-- A caller that names a qubit twice, and below it a layer that names none and calls two gates. -/
def layered : List Notification :=
  [.start (.ok (some (.ofTargets "Main" [2, 2]))),
    .start (.ok (some (.ofTargets "Layer" []))),
    .start (.ok (some (.ofTargets "X" [2]))), .finish,
    .start (.ok (some (.ofTargets "CZ" [3, 1]))), .finish,
    .finish,
    .start (.ok (some (.ofTargets "H" [1]))), .finish]

/-- The layer with its calls. -/
def layer : Operation where
  __ := Operation.ofGate "Layer"
  children := some
    [{ Operation.ofGate "X" with targets := [.qubit 2] },
      { Operation.ofGate "CZ" with targets := [.qubit 3, .qubit 1] }]
  targets := [.qubit 2, .qubit 3, .qubit 1]

/-- The last call of the caller. -/
def lastCall : Operation := { Operation.ofGate "H" with targets := [.qubit 1] }

/-- The caller keeps both mentions of its qubit, and it covers the other two once each. -/
def layeredMain : Operation where
  __ := Operation.ofGate "Main"
  children := some [layer, lastCall]
  targets := [.qubit 2, .qubit 2, .qubit 3, .qubit 1]

theorem targets_executionPath_of_layered :
    Operation.preorderAll (empty.replay layered).executionPath.operations =
        [] ++ layeredMain :: (Operation.preorderAll [layer, lastCall]) ∧
      ∃ startsBefore first below startsAfter,
        empty.kept layered = startsBefore ++ first :: (below ++ startsAfter) ∧
        ([] : List Operation).map Operation.heading = startsBefore.map Operation.heading ∧
        layeredMain.heading = first.heading ∧
        (Operation.preorderAll layeredMain.calls).map Operation.heading =
          below.map Operation.heading ∧
        layeredMain.targets = first.targets ++
          Operation.newTargets first.targets (below.flatMap Operation.targets) :=
  ⟨by decide +kernel, targets_executionPath layered [] layeredMain
      (Operation.preorderAll [layer, lastCall]) (by decide +kernel)⟩

end Tracer

end CircuitTrace
