import CircuitTrace.Proofs.Translation.Strictness

/-! # Where a walk is stopped

A walk that is stopped keeps what it has collected, and those who ask for it may go on from there.
So it matters that the operation that stops it has left nothing behind. Every check of an operation
comes before its first line: its primitives are known as a whole before one of them is written
(`outcome_arrive_of_not_unsupported`), and of an operation that cannot be expressed only the label
is noted, which the error then names (`outcome_of_halt`).

The operation that stops a walk is one of its leaves, and the leaves in front of it are visited
without a stop (`visitEach_stopped`). Hence `visitList_stopped`: a forest that is stopped leaves
what the leaves in front of the failing one leave, be they visited in the forest or one by one. -/

namespace CircuitTrace

namespace Operation

/-- The leaves of trees are not expanded. -/
theorem isLeaf_of_mem_leavesAll {ops : List Operation} {op : Operation} (h : op ∈ leavesAll ops) :
    op.isLeaf = true := by
  rw [leavesAll_eq_filter] at h
  exact (List.mem_filter.mp h).2

/-- A walk stops at a leaf and nowhere below it. -/
theorem stops_of_isLeaf {op : Operation} (h : op.isLeaf = true) (depth : Nat) :
    op.stops depth = [(depth, op)] := by
  obtain ⟨gate, args, children, controlled, adjoint, measurement, controls, targets⟩ := op
  rw [stops]
  rcases hcls : GateClass.classify gate with _ | cls
  · have hnone : children = none := by simpa [isLeaf, hcls] using h
    subst hnone
    rfl
  · rfl

end Operation

namespace Translation

/-- **What a halt leaves**: if an operation cannot be expressed its label is noted, and otherwise
the translation is as it was. -/
def noted (t : Translation) : Halt → Translation
  | .error (.unsupported label) => t.noting label
  | _ => t

theorem noted_of_not_unsupported {t : Translation} {halt : Halt}
    (h : ∀ label, halt ≠ .error (.unsupported label)) : t.noted halt = t := by
  unfold noted
  split
  · next label => exact absurd rfl (h label)
  · rfl

theorem Agrees.noted {s t : Translation} (h : s.Agrees t) (halt : Halt) :
    (s.noted halt).Agrees (t.noted halt) := by
  unfold Translation.noted
  split
  · next label => exact h.noting label
  · exact h

/-! ### The operation that fails -/

/-- **An operation that stops the walk leaves nothing behind** but its label, if it cannot be
expressed. It has been entered, and that is all. -/
theorem outcome_of_halt {op : Operation} {depth : Nat} {t : Translation} {halt : Halt}
    (h : (arrive (depth, op) t).halt = some halt) :
    (arrive (depth, op) t).translation = (t.reaching depth).noted halt ∧
      ∀ label, halt = .error (.unsupported label) → label = op.gate := by
  by_cases hop : op.Unsupported
  · obtain ⟨htranslation, hhalt⟩ := Prod.mk.inj (outcome_arrive_of_unsupported hop depth t)
    rw [hhalt, unhandled_eq] at h
    rw [htranslation, unhandled_eq]
    -- only strict options make an error of it
    split_ifs at h ⊢
    obtain rfl := Option.some.inj h
    refine ⟨rfl, ?_⟩
    rintro label ⟨⟩
    rfl
  · obtain ⟨htranslation, hhalt⟩ := Prod.mk.inj (outcome_arrive_of_not_unsupported hop depth t)
    rw [hhalt] at h
    rw [htranslation]
    rcases hprimitives : op.stopPrimitives t.measurementKey with halt' | ps <;>
      rw [hprimitives] at h
    · obtain rfl : halt' = halt := Option.some.inj h
      have hmalformed : ∀ label, halt' ≠ .error (.unsupported label) := fun label heq =>
        op.stopPrimitives_ne_unsupported _ label (hprimitives.trans (congrArg Except.error heq))
      refine ⟨(noted_of_not_unsupported hmalformed).symm, fun label heq => ?_⟩
      exact absurd heq (hmalformed label)
    · cases h

/-- **A leaf that stops the walk** writes no line. -/
theorem visit_of_halt {op : Operation} (hleaf : op.isLeaf = true) {depth : Nat} {t : Translation}
    {halt : Halt} (h : (visit depth op t).halt = some halt) :
    (visit depth op t).translation.lines = t.lines ∧
      (visit depth op t).translation.Agrees (t.noted halt) ∧
      ∀ label, halt = .error (.unsupported label) → label = op.gate := by
  have harrive : visit depth op t = arrive (depth + 1, op) t := by
    rw [visit_eq_tour, Operation.stops_of_isLeaf hleaf, tour_singleton]
  rw [harrive] at h ⊢
  obtain ⟨htranslation, hlabel⟩ := outcome_of_halt h
  have hreaching : (t.reaching (depth + 1)).Agrees t := ⟨rfl, rfl, rfl, rfl, rfl⟩
  have hlines : ((t.reaching (depth + 1)).noted halt).lines = t.lines := by
    unfold noted
    split <;> rfl
  rw [htranslation]
  exact ⟨hlines, hreaching.noted halt, hlabel⟩

/-! ### The leaves in front of it -/

/-- Visits behind one that is stopped are not made. -/
theorem outcome_visitEach_of_halt (before after : List (Nat × Operation)) {depth : Nat}
    {op : Operation} {t : Translation} {halt : Halt} (hbefore : (visitEach before t).halt = none)
    (h : (visit depth op (visitEach before t).translation).halt = some halt) :
    (visitEach (before ++ (depth, op) :: after) t).outcome =
      (visit depth op (visitEach before t).translation).outcome := by
  rw [visitEach_append, Walk.andThen_of_ok hbefore]
  unfold Walk.outcome
  simp only [visitEach, Walk.andThen_of_halt h]

/-- **Leaves are visited alike** at any depths. -/
theorem visitEach_agrees {visits visits' : List (Nat × Operation)}
    (hsame : visits.map Prod.snd = visits'.map Prod.snd)
    (hleaf : ∀ op ∈ visits.map Prod.snd, op.isLeaf = true) (t : Translation) :
    (visitEach visits t).Agrees (visitEach visits' t) := by
  have hleaves := Operation.leavesAll_of_isLeaf hleaf
  have hfirst := visitList_agrees (visits.map Prod.snd) 0 (Agrees.refl t) hleaves.symm
  have hsecond := visitList_agrees (visits.map Prod.snd) 0 (Agrees.refl t)
    (hsame.symm.trans hleaves.symm)
  exact hfirst.symm.trans hsecond

/-- **A forest that is stopped is stopped at a leaf**, and the leaves in front of it are visited
without a stop, at any depths. -/
theorem visitEach_stopped {callerDepth : Nat} {ops : List Operation} {t : Translation} {halt : Halt}
    (h : (visitList callerDepth ops t).halt = some halt) :
    ∃ before op after, Operation.leavesAll ops = before ++ op :: after ∧
      ∀ (visits : List (Nat × Operation)) (depth : Nat), visits.map Prod.snd = before →
        (visitEach visits t).halt = none ∧
        (visit depth op (visitEach visits t).translation).halt = some halt ∧
        (visitList callerDepth ops t).translation.Agrees
          (visit depth op (visitEach visits t).translation).translation := by
  -- the leaves are visited without a caller first, and then at any depths
  set leaves := (Operation.leavesAll ops).map (Prod.mk 0) with hleaves
  have hsnd : leaves.map Prod.snd = Operation.leavesAll ops := by
    rw [hleaves, List.map_map]
    exact List.map_id _
  have hagrees := visitList_agrees ops callerDepth (Agrees.refl t) hsnd
  obtain ⟨before, depth₀, op, after, hsplit, hbefore, hstop⟩ :=
    halt_visitEach_iff.mp (hagrees.halt.symm.trans h)
  have hops : Operation.leavesAll ops = before.map Prod.snd ++ op :: after.map Prod.snd := by
    rw [← hsnd, hsplit, List.map_append, List.map_cons]
  have hleaf : ∀ o ∈ before.map Prod.snd ++ op :: after.map Prod.snd, o.isLeaf = true := by
    intro o ho
    rw [← hops] at ho
    exact Operation.isLeaf_of_mem_leavesAll ho
  refine ⟨before.map Prod.snd, op, after.map Prod.snd, hops, fun visits depth hvisits => ?_⟩
  have hfront : (visitEach before t).Agrees (visitEach visits t) :=
    visitEach_agrees hvisits.symm (fun o ho => hleaf o (List.mem_append_left _ ho)) t
  have hfail : (visit depth₀ op (visitEach before t).translation).Agrees
      (visit depth op (visitEach visits t).translation) :=
    visit_agrees_of_leaf (hleaf op (by simp)) hfront.translation depth₀ depth
  refine ⟨hfront.halt.symm.trans hbefore, hfail.halt.symm.trans hstop, ?_⟩
  rw [hsplit] at hagrees
  have htranslation := (Prod.mk.inj (outcome_visitEach_of_halt before after hbefore hstop)).1
  exact (hagrees.translation.trans (by rw [htranslation]; exact Agrees.refl _)).trans
    hfail.translation

/-- **A walk that is stopped leaves no operation half written.** It is stopped at a leaf of the
forest, and it leaves what the leaves in front of that one leave, visited one after the other at any
depths: the same lines up to their levels, the same symbols, the same key and the same labels, except
for the label of an operation that cannot be expressed. The visit that fails adds no line. -/
theorem visitList_stopped (t : Translation) (callerDepth : Nat) (ops : List Operation) (halt : Halt)
    (h : (visitList callerDepth ops t).halt = some halt) :
    ∃ before op after, Operation.leavesAll ops = before ++ op :: after ∧
      (∀ label, halt = .error (.unsupported label) → label = op.gate) ∧
      ∀ (visits : List (Nat × Operation)) (depth : Nat), visits.map Prod.snd = before →
        let reached := (visitEach visits t).translation
        (visitEach visits t).halt = none ∧ (visit depth op reached).halt = some halt ∧
        (visit depth op reached).translation.lines = reached.lines ∧
        (visit depth op reached).translation.Agrees (reached.noted halt) ∧
        (visitList callerDepth ops t).translation.Agrees (reached.noted halt) := by
  obtain ⟨before, op, after, hops, hstopped⟩ := visitEach_stopped h
  have hleaf : op.isLeaf = true := by
    have hmem : op ∈ Operation.leavesAll ops := by simp [hops]
    exact Operation.isLeaf_of_mem_leavesAll hmem
  refine ⟨before, op, after, hops, ?_, fun visits depth hvisits => ?_⟩
  · have hfront : (before.map (Prod.mk 0)).map Prod.snd = before := by
      rw [List.map_map]
      exact List.map_id _
    obtain ⟨-, hstop, -⟩ := hstopped _ 0 hfront
    exact (visit_of_halt hleaf hstop).2.2
  · obtain ⟨hfront, hstop, hagrees⟩ := hstopped visits depth hvisits
    obtain ⟨hlines, hfail, -⟩ := visit_of_halt hleaf hstop
    exact ⟨hfront, hstop, hlines, hfail, hagrees.trans hfail⟩

/-- An exponential with too few operators, below a call and behind a measurement: what is left is
the measurement, and the next one has the key 1. -/
theorem visitList_stopped_of_three :
    let t := Translation.new .default
    let measure : Operation := ⟨"M", none, none, false, false, true, [.qubit 0], [.classical 0 0]⟩
    let exponential : Operation :=
      ⟨"Exp", some "([PauliX], 0.5)", none, false, false, false, [], [.qubit 0, .qubit 1]⟩
    let gate : Operation := ⟨"X", none, none, false, false, false, [], [.qubit 0]⟩
    let layer : Operation := ⟨"Layer", none, some [exponential], false, false, false, [], []⟩
    let main : Operation :=
      ⟨"Main", none, some [measure, layer, gate], false, false, false, [], []⟩
    let halt : Halt := .error (.malformed "Exp" (some "([PauliX], 0.5)") (.lengthMismatch 1 2))
    let reached := (visitEach [(0, measure)] t).translation
    (visitList 0 [main] t).halt = some halt ∧ reached.measurementKey = 1 ∧
      (visitList 0 [main] t).translation.Agrees reached := by
  intro t measure exponential gate layer main halt reached
  have hhalt : (visitList 0 [main] t).halt = some halt := by decide +kernel
  have hleaves : Operation.leavesAll [main] = [measure, exponential, gate] := by decide +kernel
  have hfail : (visit 0 exponential reached).halt = some halt := by decide +kernel
  obtain ⟨before, op, after, hops, -, hstopped⟩ := visitList_stopped t 0 [main] halt hhalt
  rw [hleaves] at hops
  refine ⟨hhalt, by decide +kernel, ?_⟩
  rcases before with _ | ⟨first, _ | ⟨second, rest⟩⟩
  · -- the measurement does not fail
    obtain ⟨rfl, -⟩ := List.cons.inj hops
    obtain ⟨-, hstop, -⟩ := hstopped [] 0 rfl
    exact absurd hstop (by decide +kernel)
  · obtain ⟨rfl, -⟩ := List.cons.inj hops
    obtain ⟨-, -, -, -, hagrees⟩ := hstopped [(0, measure)] 0 rfl
    exact hagrees
  · -- the walk does not come behind the exponential
    obtain ⟨rfl, hmore⟩ := List.cons.inj hops
    obtain ⟨rfl, -⟩ := List.cons.inj hmore
    have hvisits : ((0, measure) :: (0, exponential) :: rest.map (Prod.mk 0)).map Prod.snd =
        measure :: exponential :: rest := by simp [Function.comp_def]
    obtain ⟨hnone, -⟩ := hstopped _ 0 hvisits
    have houtcome := outcome_visitEach_of_halt [(0, measure)] (rest.map (Prod.mk 0)) (t := t)
      (by decide +kernel) hfail
    have hsome := (Prod.mk.inj houtcome).2.trans hfail
    rw [List.singleton_append, hnone] at hsome
    cases hsome

end Translation

end CircuitTrace
