import CircuitTrace.Proofs.Operation.Preorder
import CircuitTrace.Proofs.Translation.Writing
import Mathlib.Tactic.SplitIfs

/-! # What a walk through a tree writes

A walk expands an operation into its calls until it comes to a *leaf*: an operation with a class,
the calls of which do not count, or one without a list of calls. What it writes depends on the leaves
alone, in their order (`Operation.leaves`): every leaf has its primitives
(`Operation.leafPrimitives`), and the key of the next measurement is handed on from leaf to leaf
(`script`). The depths of the operations move the cursor and nothing else.

`visit_follows` says so for a visit, whether it comes to its end or is stopped, and
`visitAll_follows` for a whole path.

On its way to the leaves a walk *reaches* the operations that have no operation with a class above
them (`Operation.reachedAll`). The leaves are those among them that it does not expand
(`leavesAll_eq_filter`). -/

namespace CircuitTrace

namespace Operation

/-! ### Leaves -/

mutual

/-- **The leaves of an operation**: what is not expanded at or below it, in order. -/
def leaves (op : Operation) : List Operation :=
  match op with
  | op@⟨gate, _, children, _, _, _, _, _⟩ =>
    match GateClass.classify gate with
    | some _ => [op]
    | none => leavesCalls op children

/-- The leaves of the calls of an operation, or the operation itself if it has none. -/
def leavesCalls (op : Operation) (children : Option (List Operation)) : List Operation :=
  match children with
  | some ops => leavesAll ops
  | none => [op]

/-- The leaves of operations one after the other. -/
def leavesAll (ops : List Operation) : List Operation :=
  match ops with
  | [] => []
  | op :: ops => leaves op ++ leavesAll ops

end

theorem leaves_of_classify {op : Operation} {cls : GateClass}
    (h : GateClass.classify op.gate = some cls) : op.leaves = [op] := by
  cases op
  simp only [leaves, h]

theorem leaves_of_children {op : Operation} {ops : List Operation}
    (h : GateClass.classify op.gate = none) (hc : op.children = some ops) :
    op.leaves = leavesAll ops := by
  cases op
  subst hc
  simp only [leaves, h, leavesCalls]

theorem leaves_of_childless {op : Operation} (h : GateClass.classify op.gate = none)
    (hc : op.children = none) : op.leaves = [op] := by
  cases op
  subst hc
  simp only [leaves, h, leavesCalls]

/-- A walk does not expand the operation. -/
def isLeaf (op : Operation) : Bool := (GateClass.classify op.gate).isSome || op.children.isNone

theorem leaves_of_isLeaf {op : Operation} (h : op.isLeaf = true) : op.leaves = [op] := by
  unfold isLeaf at h
  rcases hcls : GateClass.classify op.gate with _ | cls
  · rw [hcls] at h
    exact leaves_of_childless hcls (Option.isNone_iff_eq_none.mp h)
  · exact leaves_of_classify hcls

theorem leavesAll_of_isLeaf : ∀ {ops : List Operation}, (∀ op ∈ ops, op.isLeaf = true) →
    leavesAll ops = ops
  | [], _ => rfl
  | op :: ops, h => by
    have hrest : leavesAll ops = ops :=
      leavesAll_of_isLeaf fun o ho => h o (List.mem_cons_of_mem op ho)
    rw [leavesAll, leaves_of_isLeaf (h op List.mem_cons_self), hrest, List.singleton_append]

theorem leavesAll_append : ∀ ops ops' : List Operation,
    leavesAll (ops ++ ops') = leavesAll ops ++ leavesAll ops'
  | [], _ => rfl
  | op :: ops, ops' => by
    rw [List.cons_append, leavesAll, leavesAll, leavesAll_append ops ops', List.append_assoc]

@[simp] theorem leavesAll_singleton (op : Operation) : leavesAll [op] = op.leaves := by
  rw [leavesAll, leavesAll, List.append_nil]

/-! ### Reached operations -/

mutual

/-- **The operations that a walk reaches** in a tree: those without a class above them, callers
before their calls. -/
def reached (op : Operation) : List Operation :=
  match op with
  | op@⟨gate, _, children, _, _, _, _, _⟩ =>
    match GateClass.classify gate with
    | some _ => [op]
    | none => op :: reachedCalls children

/-- The operations that a walk reaches below an operation that it expands. -/
def reachedCalls (children : Option (List Operation)) : List Operation :=
  match children with
  | some ops => reachedAll ops
  | none => []

/-- The operations that a walk reaches in trees one after the other. -/
def reachedAll (ops : List Operation) : List Operation :=
  match ops with
  | [] => []
  | op :: ops => reached op ++ reachedAll ops

end

mutual

/-- **The leaves are the reached operations that are not expanded.** -/
theorem leaves_eq_filter : ∀ op : Operation, op.leaves = op.reached.filter isLeaf
  | ⟨gate, args, children, controlled, adjoint, measurement, controls, targets⟩ => by
    rw [leaves, reached]
    rcases hcls : GateClass.classify gate with _ | cls
    · exact leavesCalls_eq_filter children hcls rfl
    · simp [isLeaf, hcls]

theorem leavesCalls_eq_filter {op : Operation} : ∀ children : Option (List Operation),
    GateClass.classify op.gate = none → op.children = children →
    op.leavesCalls children = (op :: reachedCalls children).filter isLeaf
  | some ops, hcls, hchildren => by
    have hnot : op.isLeaf = false := by simp [isLeaf, hcls, hchildren]
    rw [leavesCalls, reachedCalls, List.filter_cons_of_neg (by simp [hnot]),
      leavesAll_eq_filter ops]
  | none, hcls, hchildren => by
    have hleaf : op.isLeaf = true := by simp [isLeaf, hcls, hchildren]
    rw [leavesCalls, reachedCalls, List.filter_cons_of_pos hleaf, List.filter_nil]

theorem leavesAll_eq_filter : ∀ ops : List Operation,
    leavesAll ops = (reachedAll ops).filter isLeaf
  | [] => rfl
  | op :: ops => by
    rw [leavesAll, reachedAll, List.filter_append, leaves_eq_filter op, leavesAll_eq_filter ops]

end

mutual

/-- What a walk reaches are operations of the tree. -/
theorem reached_subset_preorder : ∀ op : Operation, op.reached ⊆ op.preorder
  | ⟨gate, args, children, controlled, adjoint, measurement, controls, targets⟩ => by
    rw [reached, preorder]
    split
    · exact List.cons_subset_cons _ (List.nil_subset _)
    · exact List.cons_subset_cons _ (reachedCalls_subset_preorder children)

theorem reachedCalls_subset_preorder : ∀ children : Option (List Operation),
    reachedCalls children ⊆ preorderCalls children
  | some ops => reachedAll_subset_preorder ops
  | none => List.nil_subset _

theorem reachedAll_subset_preorder : ∀ ops : List Operation, reachedAll ops ⊆ preorderAll ops
  | [] => List.nil_subset _
  | op :: ops => by
    have hop := reached_subset_preorder op
    have hops := reachedAll_subset_preorder ops
    rw [reachedAll, preorderAll_cons]
    exact List.append_subset.mpr
      ⟨List.subset_append_of_subset_left _ hop, List.subset_append_of_subset_right _ hops⟩

end

/-- The leaves of operations are among the operations of their trees. -/
theorem leavesAll_subset_preorder (ops : List Operation) : leavesAll ops ⊆ preorderAll ops := by
  rw [leavesAll_eq_filter]
  exact List.Subset.trans List.filter_sublist.subset (reachedAll_subset_preorder ops)

/-! ### Primitives -/

/-- The primitives of an operation without a class and without calls. -/
def childlessPrimitives (config : Config) (op : Operation) : Except Halt (List Primitive) :=
  if op.gate = phaseMarkerLabel then .ok []
  else if op.gate = exponentialLabel then op.exponential
  else if config.strict then .error (.error (.unsupported op.gate))
  else if config.renderUnhandled then .ok [op.unhandledPrimitive]
  else .ok []

/-- **The primitives of a leaf**; `key` is the key of the next measurement. -/
def leafPrimitives (config : Config) (key : Nat) (op : Operation) : Except Halt (List Primitive) :=
  match GateClass.classify op.gate with
  | some cls => op.classPrimitives key cls
  | none => op.childlessPrimitives config

theorem leafPrimitives_of_classify {op : Operation} {cls : GateClass}
    (h : GateClass.classify op.gate = some cls) (config : Config) (key : Nat) :
    op.leafPrimitives config key = op.classPrimitives key cls := by
  unfold leafPrimitives; rw [h]

theorem leafPrimitives_of_childless {op : Operation} (h : GateClass.classify op.gate = none)
    (config : Config) (key : Nat) :
    op.leafPrimitives config key = op.childlessPrimitives config := by
  unfold leafPrimitives; rw [h]

theorem childlessPrimitives_of_exponential {op : Operation} (h : op.gate = exponentialLabel)
    (config : Config) : op.childlessPrimitives config = op.exponential := by
  have hmarker : op.gate ≠ phaseMarkerLabel := by rw [h]; decide
  unfold childlessPrimitives
  rw [if_neg hmarker, if_pos h]

theorem leafPrimitives_of_exponential {op : Operation} (h : op.gate = exponentialLabel)
    (config : Config) (key : Nat) : op.leafPrimitives config key = op.exponential := by
  have hcls : GateClass.classify op.gate = none := by rw [h]; rfl
  rw [leafPrimitives_of_childless hcls, childlessPrimitives_of_exponential h]

end Operation

/-- **The primitives of leaves one after the other**, up to the first leaf that has none. -/
def script (config : Config) (key : Nat) : List Operation → Except Halt (List Primitive)
  | [] => .ok []
  | op :: ops =>
    (op.leafPrimitives config key).bind fun ps =>
      (script config (keyAfter key ps) ops).map (ps ++ ·)

section Script

variable {config : Config} {key : Nat}

@[simp] theorem script_singleton (op : Operation) :
    script config key [op] = op.leafPrimitives config key := by
  rw [script]
  rcases op.leafPrimitives config key with h | qs
  · rfl
  · simp [Except.bind, Except.map, script]

theorem script_append : ∀ (ops ops' : List Operation) (key : Nat),
    script config key (ops ++ ops') =
      (script config key ops).bind fun ps =>
        (script config (keyAfter key ps) ops').map (ps ++ ·)
  | [], ops', key => by
    rw [List.nil_append, script, Except.bind, keyAfter_nil]
    rcases script config key ops' with h | rs
    · rfl
    · simp [Except.map]
  | op :: ops, ops', key => by
    rw [List.cons_append, script, script]
    rcases op.leafPrimitives config key with h | qs
    · rfl
    · simp only [Except.bind]
      rw [script_append ops ops']
      rcases script config (keyAfter key qs) ops with h | rs
      · rfl
      · simp only [Except.bind, Except.map, keyAfter_append]
        rcases script config (keyAfter (keyAfter key qs) rs) ops' with h | ss
        · rfl
        · simp

theorem script_append_eq_ok_iff {ops ops' : List Operation} {ps : List Primitive} :
    script config key (ops ++ ops') = .ok ps ↔
      ∃ qs rs, script config key ops = .ok qs ∧
        script config (keyAfter key qs) ops' = .ok rs ∧ ps = qs ++ rs := by
  rw [script_append]
  rcases script config key ops with h | qs
  · simp [Except.bind]
  · rcases hr : script config (keyAfter key qs) ops' with h | rs
    · simp [Except.bind, Except.map, hr]
    · simp [Except.bind, Except.map, hr, eq_comm]

end Script

/-! ### Walks -/

/-- **A walk follows a script**: it comes to its end and puts the primitives of the script behind
those that were there, or it is stopped by what stops the script. -/
def Walk.Follows (w : Walk) (t : Translation) : Except Halt (List Primitive) → Prop
  | .ok ps =>
    w.halt = none ∧ w.translation.config = t.config ∧
      w.translation.primitives = t.primitives ++ ps ∧
      w.translation.measurementKey = keyAfter t.measurementKey ps
  | .error h => w.halt = some h

namespace Translation

theorem follows_settle (t : Translation) : ∀ r : Except Halt (List Primitive),
    (t.settle r).Follows t r
  | .ok ps => by
    rw [settle_ok]
    exact ⟨rfl, config_writeAll ps t, primitives_writeAll ps t, measurementKey_writeAll ps t⟩
  | .error _ => rfl

end Translation

namespace Walk

/-- Only the halt and the translation count. -/
theorem Follows.of_eq {v w : Walk} {t : Translation} {r : Except Halt (List Primitive)}
    (h : w.Follows t r) (hh : v.halt = w.halt) (ht : v.translation = w.translation) :
    v.Follows t r := by
  rcases r with e | ps
  · exact hh.trans h
  · unfold Follows at h ⊢
    rw [hh, ht]
    exact h

theorem Follows.andThen {w : Walk} {t : Translation} {next : Translation → Walk}
    {r : Except Halt (List Primitive)} {f : List Primitive → Except Halt (List Primitive)}
    (h : w.Follows t r)
    (hnext : ∀ ps, r = .ok ps → (next w.translation).Follows w.translation (f ps)) :
    (w.andThen next).Follows t (r.bind fun ps => (f ps).map (ps ++ ·)) := by
  rcases r with e | ps
  · have hw : w.halt = some e := h
    rw [andThen_of_halt hw]
    exact hw
  · obtain ⟨hhalt, hconfig, hprimitives, hkey⟩ := h
    have hn := hnext ps rfl
    rw [andThen_of_ok hhalt]
    simp only [Except.bind]
    rcases hf : f ps with e | qs <;> rw [hf] at hn
    · exact hn
    · obtain ⟨hhalt', hconfig', hprimitives', hkey'⟩ := hn
      refine ⟨hhalt', hconfig'.trans hconfig, ?_, ?_⟩
      · exact hprimitives'.trans (by rw [hprimitives, List.append_assoc])
      · exact hkey'.trans (by rw [hkey, keyAfter_append])

/-- Entering an operation writes nothing. -/
theorem Follows.after_enter {t : Translation} {op : Operation} {depth : Nat}
    {next : Translation → Walk} {r : Except Halt (List Primitive)}
    (h : (next (t.enter op depth).translation).Follows (t.enter op depth).translation r) :
    ((t.enter op depth).andThen next).Follows t r := by
  rw [andThen_of_ok (Translation.halt_enter t op depth)]
  rcases r with e | ps <;> exact h

end Walk

namespace Translation

theorem follows_decompose (t : Translation) (op : Operation) (cls : GateClass) :
    (t.decompose op cls).Follows t (op.classPrimitives t.measurementKey cls) :=
  (follows_settle t _).of_eq (halt_decompose t op cls) (translation_decompose t op cls)

theorem follows_childless (t : Translation) (op : Operation) :
    (t.childless op).Follows t (op.childlessPrimitives t.config) := by
  have hnil : ∀ noted : Translation, noted.config = t.config → noted.primitives = t.primitives →
      noted.measurementKey = t.measurementKey → Walk.Follows ⟨noted, [], none⟩ t (.ok []) := by
    intro noted hc hp hk
    exact ⟨rfl, hc, hp.trans (List.append_nil _).symm, hk⟩
  unfold childless Operation.childlessPrimitives unhandled
  split_ifs
  · exact hnil t rfl rfl rfl
  · exact follows_settle t op.exponential
  · exact rfl
  · exact follows_settle { t with gatesErrored := noteOnce t.gatesErrored op.gate }
      (.ok [op.unhandledPrimitive])
  · exact hnil _ rfl rfl rfl

mutual

/-- **A visit follows the script of the leaves.** -/
theorem visit_follows : ∀ (op : Operation) (callerDepth : Nat) (t : Translation),
    (visit callerDepth op t).Follows t (script t.config t.measurementKey op.leaves)
  | ⟨gate, args, children, controlled, adjoint, measurement, controls, targets⟩, depth, t => by
    rw [visit, Operation.leaves]
    refine Walk.Follows.after_enter ?_
    rcases h : GateClass.classify gate with _ | cls
    · exact visitCalls_follows children _ h (depth + 1) _
    · rw [script_singleton, Operation.leafPrimitives_of_classify h]
      exact follows_decompose _ _ cls

theorem visitCalls_follows : ∀ (children : Option (List Operation)) (op : Operation),
    GateClass.classify op.gate = none → ∀ (depth : Nat) (t : Translation),
    (visitCalls depth op children t).Follows t
      (script t.config t.measurementKey (op.leavesCalls children))
  | some ops, _, _, depth, t => visitList_follows ops depth t
  | none, op, h, depth, t => by
    rw [visitCalls, Operation.leavesCalls, script_singleton,
      Operation.leafPrimitives_of_childless h]
    exact follows_childless t op

theorem visitList_follows : ∀ (ops : List Operation) (callerDepth : Nat) (t : Translation),
    (visitList callerDepth ops t).Follows t
      (script t.config t.measurementKey (Operation.leavesAll ops))
  | [], _, t => ⟨rfl, rfl, (List.append_nil _).symm, rfl⟩
  | op :: ops, depth, t => by
    rw [visitList, Operation.leavesAll, script_append]
    have hfirst := visit_follows op depth t
    refine hfirst.andThen fun ps hps => ?_
    rw [hps] at hfirst
    obtain ⟨-, hconfig, -, hkey⟩ := hfirst
    rw [← hconfig, ← hkey]
    exact visitList_follows ops depth _

end

/-- **A path is written as the script of its leaves.** -/
theorem visitAll_follows (t : Translation) (ops : List Operation) :
    (t.visitAll ops).Follows t (script t.config t.measurementKey (Operation.leavesAll ops)) :=
  visitList_follows ops 0 t

/-- A walk that comes to its end has written the script. -/
theorem script_of_halt {config : Config} {ops : List Operation}
    (h : ((new config).visitAll ops).halt = none) :
    script config 0 (Operation.leavesAll ops) =
      .ok ((new config).visitAll ops).translation.primitives := by
  have hfollows : ((new config).visitAll ops).Follows (new config)
      (script config 0 (Operation.leavesAll ops)) := visitAll_follows _ ops
  rcases hscript : script config 0 (Operation.leavesAll ops) with halt | ps <;>
    rw [hscript] at hfollows
  · have hhalt : ((new config).visitAll ops).halt = some halt := hfollows
    rw [h] at hhalt
    cases hhalt
  · have hprimitives : ((new config).visitAll ops).translation.primitives = ps := hfollows.2.2.1
    rw [hprimitives]

end Translation

end CircuitTrace
