import CircuitTrace.Proofs.Translation.Stable

/-! # Walking along the leaves

The nesting of operations decides at which levels lines are written, and nothing else: a walk
through a forest does what visiting its leaves one after the other does, each of them at any depth.

`Translation.Agrees` compares two translations up to the cursor and the levels of the lines, and
`Walk.Agrees` two walks. Every part of a walk respects it (`Agrees.write`, `Agrees.decompose`,
`Agrees.childless`), and entering an operation is not seen at all (`Agrees.enter`), so the recursion
of a visit over its tree is the recursion of `visitEach` over the leaves (`visit_agrees`,
`visitList_agrees`). A walk along leaves is stopped by the first of them that is
(`halt_visitEach_iff`). `visitList_eq_visitEach` puts this together. -/

namespace CircuitTrace

namespace Translation

/-- **Two translations agree** except for the cursor and the levels of the lines. -/
structure Agrees (s t : Translation) : Prop where
  config : s.config = t.config
  primitives : s.primitives = t.primitives
  gatesUsed : s.gatesUsed = t.gatesUsed
  gatesErrored : s.gatesErrored = t.gatesErrored
  measurementKey : s.measurementKey = t.measurementKey

theorem Agrees.refl (t : Translation) : t.Agrees t := ⟨rfl, rfl, rfl, rfl, rfl⟩

theorem Agrees.symm {s t : Translation} (h : s.Agrees t) : t.Agrees s :=
  ⟨h.config.symm, h.primitives.symm, h.gatesUsed.symm, h.gatesErrored.symm, h.measurementKey.symm⟩

theorem Agrees.trans {s t u : Translation} (h : s.Agrees t) (h' : t.Agrees u) : s.Agrees u :=
  ⟨h.config.trans h'.config, h.primitives.trans h'.primitives, h.gatesUsed.trans h'.gatesUsed,
    h.gatesErrored.trans h'.gatesErrored, h.measurementKey.trans h'.measurementKey⟩

end Translation

/-- **Two walks agree**: the same thing stops them, if anything does, and they lead to translations
that agree. -/
structure Walk.Agrees (v w : Walk) : Prop where
  halt : v.halt = w.halt
  translation : v.translation.Agrees w.translation

namespace Walk

theorem andThen_assoc (w : Walk) (next next' : Translation → Walk) :
    (w.andThen next).andThen next' = w.andThen fun t => (next t).andThen next' := by
  rcases hw : w.halt with _ | halt
  · rw [andThen_of_ok hw, andThen_of_ok hw]
    rcases hnext : (next w.translation).halt with _ | halt
    · rw [andThen_of_ok hnext, andThen_of_ok (by exact hnext), List.append_assoc]
    · rw [andThen_of_halt hnext, andThen_of_halt (by exact hnext)]
  · rw [andThen_of_halt hw, andThen_of_halt hw, andThen_of_halt hw]

theorem Agrees.symm {v w : Walk} (h : v.Agrees w) : w.Agrees v :=
  ⟨h.halt.symm, h.translation.symm⟩

theorem Agrees.trans {u v w : Walk} (h : u.Agrees v) (h' : v.Agrees w) : u.Agrees w :=
  ⟨h.halt.trans h'.halt, h.translation.trans h'.translation⟩

theorem Agrees.andThen {v w : Walk} {next next' : Translation → Walk} (h : v.Agrees w)
    (hnext : ∀ {s t}, s.Agrees t → (next s).Agrees (next' t)) :
    (v.andThen next).Agrees (w.andThen next') := by
  rcases hw : w.halt with _ | halt
  · have hv : v.halt = none := h.halt.trans hw
    rw [andThen_of_ok hv, andThen_of_ok hw]
    have hrest := hnext h.translation
    exact ⟨hrest.halt, hrest.translation⟩
  · have hv : v.halt = some halt := h.halt.trans hw
    rw [andThen_of_halt hv, andThen_of_halt hw]
    exact h

end Walk

namespace Translation

/-! ### The parts of a walk -/

theorem primitives_write (t : Translation) (p : Primitive) :
    (t.write p).primitives = t.primitives ++ [p] := primitives_writeAll [p] t

theorem gatesUsed_write (t : Translation) (p : Primitive) :
    (t.write p).gatesUsed = p.instruction.symbol?.toList.foldl noteOnce t.gatesUsed := by
  unfold write
  rcases p.instruction.symbol? with _ | symbol <;> rfl

theorem gatesErrored_write (t : Translation) (p : Primitive) :
    (t.write p).gatesErrored = t.gatesErrored := by
  unfold write
  rcases p.instruction.symbol? with _ | symbol <;> rfl

namespace Agrees

variable {s t : Translation}

theorem write (h : s.Agrees t) (p : Primitive) : (s.write p).Agrees (t.write p) := by
  refine ⟨?_, ?_, ?_, ?_, ?_⟩
  · rw [config_write, config_write, h.config]
  · rw [primitives_write, primitives_write, h.primitives]
  · rw [gatesUsed_write, gatesUsed_write, h.gatesUsed]
  · rw [gatesErrored_write, gatesErrored_write, h.gatesErrored]
  · rw [measurementKey_write, measurementKey_write, h.measurementKey]

theorem writeAll (ps : List Primitive) :
    ∀ {s t : Translation}, s.Agrees t → (s.writeAll ps).Agrees (t.writeAll ps) := by
  induction ps with
  | nil => exact fun h => h
  | cons p ps ih => exact fun h => ih (h.write p)

theorem noting (h : s.Agrees t) (label : String) : (s.noting label).Agrees (t.noting label) := by
  refine ⟨h.config, h.primitives, h.gatesUsed, ?_, h.measurementKey⟩
  have herrored := h.gatesErrored
  unfold Translation.noting
  rw [herrored]

theorem settle (h : s.Agrees t) (r : Except Halt (List Primitive)) :
    (s.settle r).Agrees (t.settle r) := by
  rcases r with halt | ps
  · exact ⟨rfl, h⟩
  · exact ⟨rfl, writeAll ps h⟩

theorem decompose (h : s.Agrees t) (op : Operation) (cls : GateClass) :
    (s.decompose op cls).Agrees (t.decompose op cls) := by
  have hsettle := h.settle (op.classPrimitives t.measurementKey cls)
  refine ⟨?_, ?_⟩
  · rw [halt_decompose, halt_decompose, h.measurementKey]
    exact hsettle.halt
  · rw [translation_decompose, translation_decompose, h.measurementKey]
    exact hsettle.translation

theorem childless (h : s.Agrees t) (op : Operation) :
    (s.childless op).Agrees (t.childless op) := by
  have hnoted : (s.noting op.gate).Agrees (t.noting op.gate) := h.noting op.gate
  unfold Translation.childless
  rw [unhandled_eq, unhandled_eq, h.config]
  split_ifs
  · exact ⟨rfl, h⟩
  · exact h.settle op.exponential
  · exact ⟨rfl, hnoted⟩
  · exact ⟨rfl, hnoted.write op.unhandledPrimitive⟩
  · exact ⟨rfl, hnoted⟩

/-- Entering an operation is not seen. -/
theorem enter (h : s.Agrees t) {op : Operation} {depth : Nat} {next : Translation → Walk} {w : Walk}
    (hnext : ∀ {u}, u.Agrees t → (next u).Agrees w) : ((s.enter op depth).andThen next).Agrees w := by
  have hentered : (s.enter op depth).translation.Agrees t :=
    ⟨h.config, h.primitives, h.gatesUsed, h.gatesErrored, h.measurementKey⟩
  rw [Walk.andThen_of_ok (halt_enter s op depth)]
  exact ⟨(hnext hentered).halt, (hnext hentered).translation⟩

end Agrees

/-! ### Leaves one after the other -/

/-- **Visits one after the other**, each below a caller at a depth of its own, until one is
stopped. -/
def visitEach (visits : List (Nat × Operation)) (t : Translation) : Walk :=
  match visits with
  | [] => ⟨t, [], none⟩
  | (callerDepth, op) :: visits => (visit callerDepth op t).andThen (visitEach visits)

theorem visitEach_append : ∀ (visits visits' : List (Nat × Operation)) (t : Translation),
    visitEach (visits ++ visits') t = (visitEach visits t).andThen (visitEach visits')
  | [], _, _ => rfl
  | (callerDepth, op) :: visits, visits', t => by
    have hrest : visitEach (visits ++ visits') =
        fun t => (visitEach visits t).andThen (visitEach visits') :=
      funext (visitEach_append visits visits')
    rw [List.cons_append, visitEach, visitEach, hrest, Walk.andThen_assoc]

theorem visitEach_singleton (callerDepth : Nat) (op : Operation) (t : Translation) :
    visitEach [(callerDepth, op)] t = visit callerDepth op t := by
  rw [visitEach]
  rcases hhalt : (visit callerDepth op t).halt with _ | halt
  · rw [Walk.andThen_of_ok hhalt, visitEach, List.append_nil, ← hhalt]
  · rw [Walk.andThen_of_halt hhalt]

/-- A leaf is visited in the same way at any depth. -/
theorem visit_agrees_of_leaf {op : Operation} (hleaf : op.isLeaf = true) {s t : Translation}
    (h : s.Agrees t) (depth depth' : Nat) : (visit depth op s).Agrees (visit depth' op t) := by
  rcases hcls : GateClass.classify op.gate with _ | cls
  · have hchildren : op.children = none := by simpa [Operation.isLeaf, hcls] using hleaf
    rw [visit_of_childless hcls hchildren, visit_of_childless hcls hchildren]
    refine h.enter fun hu => (Agrees.enter (Agrees.refl t) fun hv => ?_).symm
    exact (hv.trans hu.symm).childless op
  · rw [visit_of_classify hcls, visit_of_classify hcls]
    refine h.enter fun hu => (Agrees.enter (Agrees.refl t) fun hv => ?_).symm
    exact (hv.trans hu.symm).decompose op cls

theorem visit_agrees_visitEach_of_leaf {op : Operation} (hleaf : op.isLeaf = true)
    {s t : Translation} (h : s.Agrees t) (depth : Nat) {visits : List (Nat × Operation)}
    (hvisits : visits.map Prod.snd = [op]) : (visit depth op s).Agrees (visitEach visits t) := by
  obtain ⟨⟨depth', op'⟩, rfl, rfl⟩ := List.map_eq_singleton_iff.mp hvisits
  rw [visitEach_singleton]
  exact visit_agrees_of_leaf hleaf h depth depth'

mutual

/-- **A visit agrees with visits of the leaves** one after the other, at any depths. -/
theorem visit_agrees : ∀ (op : Operation) (depth : Nat) {s t : Translation}
    {visits : List (Nat × Operation)}, s.Agrees t → visits.map Prod.snd = op.leaves →
    (visit depth op s).Agrees (visitEach visits t)
  | ⟨gate, args, children, controlled, adjoint, measurement, controls, targets⟩, depth, s, t,
      visits, h, hvisits => by
    rw [Operation.leaves] at hvisits
    rcases hcls : GateClass.classify gate with _ | cls <;> rw [hcls] at hvisits
    · exact visitCalls_agrees children hcls rfl depth h hvisits
    · have hleaf : Operation.isLeaf ⟨gate, args, children, controlled, adjoint, measurement,
          controls, targets⟩ = true := by simp [Operation.isLeaf, hcls]
      exact visit_agrees_visitEach_of_leaf hleaf h depth hvisits

theorem visitCalls_agrees {op : Operation} : ∀ (children : Option (List Operation)),
    GateClass.classify op.gate = none → op.children = children → ∀ (depth : Nat)
    {s t : Translation} {visits : List (Nat × Operation)}, s.Agrees t →
    visits.map Prod.snd = op.leavesCalls children → (visit depth op s).Agrees (visitEach visits t)
  | some ops, hcls, hchildren, depth, s, t, visits, h, hvisits => by
    rw [visit_of_children hcls hchildren]
    exact h.enter fun hu => visitList_agrees ops (depth + 1) hu hvisits
  | none, _, hchildren, depth, s, t, visits, h, hvisits => by
    have hleaf : op.isLeaf = true := by simp [Operation.isLeaf, hchildren]
    exact visit_agrees_visitEach_of_leaf hleaf h depth hvisits

theorem visitList_agrees : ∀ (ops : List Operation) (depth : Nat) {s t : Translation}
    {visits : List (Nat × Operation)}, s.Agrees t → visits.map Prod.snd = Operation.leavesAll ops →
    (visitList depth ops s).Agrees (visitEach visits t)
  | [], depth, s, t, visits, h, hvisits => by
    obtain rfl : visits = [] := List.map_eq_nil_iff.mp hvisits
    exact ⟨rfl, h⟩
  | op :: ops, depth, s, t, visits, h, hvisits => by
    rw [Operation.leavesAll] at hvisits
    obtain ⟨first, rest, rfl, hfirst, hrest⟩ := List.map_eq_append_iff.mp hvisits
    rw [visitList, visitEach_append]
    refine (visit_agrees op depth h hfirst).andThen fun h' => ?_
    exact visitList_agrees ops depth h' hrest

end

/-! ### What a forest is translated into -/

/-- **Two walks from a translation do the same**: they are stopped by the same thing, if by
anything, write the same primitives behind the lines that were there, and come to the same symbols,
labels and key. Only the levels of the new lines may differ. -/
structure SameWork (t : Translation) (v w : Walk) : Prop where
  halt : v.halt = w.halt
  written : ∃ new new', v.translation.lines = t.lines ++ new ∧
    w.translation.lines = t.lines ++ new' ∧
      new.map ScriptLine.primitive = new'.map ScriptLine.primitive
  gatesUsed : v.translation.gatesUsed = w.translation.gatesUsed
  gatesErrored : v.translation.gatesErrored = w.translation.gatesErrored
  measurementKey : v.translation.measurementKey = w.translation.measurementKey

theorem prefix_visitEach : ∀ (visits : List (Nat × Operation)) (t : Translation),
    t.lines <+: (visitEach visits t).translation.lines
  | [], _ => List.prefix_rfl
  | (callerDepth, op) :: visits, t =>
    Walk.holds_andThen (P := fun u => t.lines <+: u.lines) (prefix_visit callerDepth op t)
      fun u hu => hu.trans (prefix_visitEach visits u)

theorem sameWork_of_agrees {t : Translation} {v w : Walk} (h : v.Agrees w)
    (hv : t.lines <+: v.translation.lines) (hw : t.lines <+: w.translation.lines) :
    t.SameWork v w := by
  obtain ⟨new, hnew⟩ := hv
  obtain ⟨new', hnew'⟩ := hw
  refine ⟨h.halt, ⟨new, new', hnew.symm, hnew'.symm, ?_⟩, h.translation.gatesUsed,
    h.translation.gatesErrored, h.translation.measurementKey⟩
  have hprimitives : v.translation.primitives = w.translation.primitives :=
    h.translation.primitives
  unfold primitives at hprimitives
  rw [← hnew, ← hnew', List.map_append, List.map_append] at hprimitives
  exact List.append_cancel_left hprimitives

/-- **Visits one after the other are stopped** by the first of them that is. -/
theorem halt_visitEach_iff {halt : Halt} : ∀ {visits : List (Nat × Operation)} {t : Translation},
    (visitEach visits t).halt = some halt ↔
      ∃ before callerDepth op after, visits = before ++ (callerDepth, op) :: after ∧
        (visitEach before t).halt = none ∧
          (visit callerDepth op (visitEach before t).translation).halt = some halt
  | [], t => by
    constructor
    · intro h
      cases h
    · rintro ⟨before, callerDepth, op, after, hsplit, -⟩
      exact absurd hsplit.symm (List.append_ne_nil_of_right_ne_nil _ (List.cons_ne_nil _ _))
  | (callerDepth, op) :: visits, t => by
    rw [visitEach]
    rcases hfirst : (visit callerDepth op t).halt with _ | stopped
    · have hmore : ∀ before, visitEach ((callerDepth, op) :: before) t =
          { visitEach before (visit callerDepth op t).translation with
            records := (visit callerDepth op t).records ++
              (visitEach before (visit callerDepth op t).translation).records } := fun before => by
        rw [visitEach, Walk.andThen_of_ok hfirst]
      rw [Walk.andThen_of_ok hfirst]
      refine halt_visitEach_iff.trans ⟨?_, ?_⟩
      · rintro ⟨before, callerDepth', op', after, rfl, hbefore, hstop⟩
        refine ⟨(callerDepth, op) :: before, callerDepth', op', after, rfl, ?_, ?_⟩
        · rw [hmore]
          exact hbefore
        · rw [hmore]
          exact hstop
      · rintro ⟨_ | ⟨first, before⟩, callerDepth', op', after, hsplit, hbefore, hstop⟩
        · cases hsplit
          rw [visitEach, hfirst] at hstop
          cases hstop
        · cases hsplit
          rw [hmore] at hbefore hstop
          exact ⟨before, callerDepth', op', after, rfl, hbefore, hstop⟩
    · rw [Walk.andThen_of_halt hfirst, hfirst]
      constructor
      · intro h
        exact ⟨[], callerDepth, op, visits, rfl, rfl, hfirst.trans h⟩
      · rintro ⟨_ | ⟨first, before⟩, callerDepth', op', after, hsplit, hbefore, hstop⟩
        · cases hsplit
          exact hfirst.symm.trans hstop
        · cases hsplit
          rw [visitEach, Walk.andThen_of_halt hfirst, hfirst] at hbefore
          cases hbefore

/-- **A forest is translated as its leaves, one after the other.** Visiting it does what visiting
its leaves does, each at any depth; so two forests with the same leaves are translated alike,
however their operations are nested; and what stops the walk stops the first leaf that is
stopped. -/
theorem visitList_eq_visitEach (t : Translation) (callerDepth : Nat) (ops : List Operation) :
    (∀ visits : List (Nat × Operation), visits.map Prod.snd = Operation.leavesAll ops →
      t.SameWork (visitList callerDepth ops t) (visitEach visits t)) ∧
    (∀ (callerDepth' : Nat) (ops' : List Operation),
      Operation.leavesAll ops' = Operation.leavesAll ops →
        t.SameWork (visitList callerDepth ops t) (visitList callerDepth' ops' t)) ∧
    ∀ (visits : List (Nat × Operation)) (halt : Halt),
      visits.map Prod.snd = Operation.leavesAll ops →
        ((visitList callerDepth ops t).halt = some halt ↔
          ∃ before depth op after, visits = before ++ (depth, op) :: after ∧
            (visitEach before t).halt = none ∧
              (visit depth op (visitEach before t).translation).halt = some halt) := by
  have hforest := prefix_visitList callerDepth ops t
  refine ⟨fun visits hvisits => ?_, fun callerDepth' ops' hleaves => ?_,
    fun visits halt hvisits => ?_⟩
  · have hagrees := visitList_agrees ops callerDepth (Agrees.refl t) hvisits
    exact sameWork_of_agrees hagrees hforest (prefix_visitEach visits t)
  · -- both agree with visits of the leaves, say without a caller
    have hsame : ((Operation.leavesAll ops).map (Prod.mk 0)).map Prod.snd =
        Operation.leavesAll ops := by
      rw [List.map_map]
      exact List.map_id _
    have hagrees := visitList_agrees ops callerDepth (Agrees.refl t) hsame
    have hagrees' := visitList_agrees ops' callerDepth' (Agrees.refl t) (hsame.trans hleaves.symm)
    exact sameWork_of_agrees (hagrees.trans hagrees'.symm) hforest
      (prefix_visitList callerDepth' ops' t)
  · rw [(visitList_agrees ops callerDepth (Agrees.refl t) hvisits).halt]
    exact halt_visitEach_iff

/-- A measurement two levels down, and a gate behind it that makes no sense: the walk is stopped
there, whatever the nesting. -/
theorem visitList_eq_visitEach_of_four :
    let t := Translation.new .default
    let gates : List Operation :=
      [⟨"H", none, none, false, false, false, [], [.qubit 0]⟩,
        ⟨"M", none, none, false, false, true, [.qubit 0], [.classical 0 0]⟩,
        ⟨"Interface_Clifford", some "(PauliX)", none, false, false, false, [], [.qubit 0]⟩,
        ⟨"X", none, none, false, false, false, [], [.qubit 0]⟩]
    let layer : Operation := ⟨"Layer", none, some (gates.take 2), false, false, false, [], []⟩
    let main : Operation :=
      ⟨"Main", none, some (layer :: gates.drop 2), false, false, false, [], []⟩
    Operation.leavesAll [main] = gates ∧
      t.SameWork (visitList 0 [main] t) (visitEach (gates.map (Prod.mk 7)) t) ∧
      t.SameWork (visitList 0 [main] t) (visitList 3 gates t) ∧
      (visitList 0 [main] t).halt =
        some (.error (.malformed "Interface_Clifford" (some "(PauliX)") .notClifford)) := by
  intro t gates layer main
  have hleaves : Operation.leavesAll [main] = gates := by decide +kernel
  have hgates : Operation.leavesAll gates = gates := by decide +kernel
  have hvisits : (gates.map (Prod.mk 7)).map Prod.snd = gates := by decide +kernel
  obtain ⟨hsame, hnesting, hhalt⟩ := visitList_eq_visitEach t 0 [main]
  refine ⟨hleaves, hsame _ (hvisits.trans hleaves.symm),
    hnesting 3 gates (hgates.trans hleaves.symm), ?_⟩
  refine (hhalt _ _ (hvisits.trans hleaves.symm)).mpr
    ⟨(gates.take 2).map (Prod.mk 7), 7, _, (gates.drop 3).map (Prod.mk 7), rfl, ?_, ?_⟩
  · decide +kernel
  · decide +kernel

end Translation

end CircuitTrace
