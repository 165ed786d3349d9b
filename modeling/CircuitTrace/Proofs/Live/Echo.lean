import CircuitTrace.Proofs.Live.Session
import CircuitTrace.Proofs.Trace.CallTree
import CircuitTrace.Proofs.Translation.Leaves
import Mathlib.Tactic.Set

/-! # What a live translation echoes

A live translation is *ready* for a depth (`Live.Ready`) if its sink takes all lines, none of them
is waiting, and operations at that depth lie in no handled body. `Live.Echoes` says that it hears
reports without a break, echoes primitives meanwhile and is ready again.

* `echoes_of_class`, `echoes_started`, `echoes_ended`: an operation with a class echoes its
  primitives at its start and an exponential without calls at its end; nothing else is echoed.
* `ignores_calls`: reports from a handled body change nothing. -/

namespace CircuitTrace

namespace Live

/-! ### Handled bodies -/

/-- The live translation passes over reports. -/
def Ignores (l : Live) (rs : List Report) : Prop := l.hearAll rs = ⟨l, [], none⟩

theorem Ignores.append {l : Live} {rs ss : List Report} (h : l.Ignores rs) (hs : l.Ignores ss) :
    l.Ignores (rs ++ ss) := by
  unfold Ignores at h hs ⊢
  rw [hearAll_append (by rw [h]), h]
  exact hs

theorem ignores_nil (l : Live) : l.Ignores [] := rfl

theorem ignores_singleton {l : Live} {r : Report} (h : l.hear r = ⟨l, [], none⟩) :
    l.Ignores [r] := by
  unfold Ignores
  rw [hearAll_cons_of_ok (by rw [h]), h]
  rfl

theorem ignores_started {l : Live} {depth : Nat} (h : l.inHandledBody depth = true)
    (op : Operation) : l.Ignores [.started op depth] :=
  ignores_singleton (by simp only [hear, h, if_true])

/-- Only the end of an exponential without calls is heard. -/
theorem ignores_ended {l : Live} {op : Operation} {depth : Nat}
    (h : op.gate ≠ exponentialLabel ∨ op.hasChildren = true ∨ l.inHandledBody depth = true) :
    l.Ignores [.ended op depth] := by
  refine ignores_singleton ?_
  simp only [hear]
  rw [if_neg]
  rcases h with h | h | h <;> simp [h]

/-! ### Echoing -/

/-- **The live translation is ready** for operations at a depth: the sink takes all lines, none is
waiting, and the operations lie in no handled body. -/
structure Ready (l : Live) (depth : Nat) : Prop where
  /-- All lines have been passed to the sink. -/
  written : l.written = l.translation.lines.length
  /-- The sink takes all lines. -/
  room : l.sinkRoom = none
  /-- Operations at the depth are not in a handled body. -/
  outside : l.inHandledBody depth = false

theorem Ready.of_le {l : Live} {depth depth' : Nat} (h : l.Ready depth) (hle : depth' ≤ depth) :
    l.Ready depth' := by
  refine ⟨h.written, h.room, ?_⟩
  have hout := h.outside
  obtain ⟨t, written, handled, room⟩ := l
  rcases handled with _ | handled
  · rfl
  · simp only [inHandledBody, decide_eq_false_iff_not] at hout ⊢
    omega

/-- **The live translation echoes primitives** while it hears reports, and is ready afterwards for
operations at a depth. -/
structure Echoes (l : Live) (depth : Nat) (rs : List Report) (ps : List Primitive) : Prop where
  /-- Nothing breaks the contract. -/
  breach : (l.hearAll rs).breach = none
  /-- The primitives are echoed. -/
  lines : echoedLines (l.hearAll rs).entries = ps.map Primitive.render
  /-- The live translation is ready. -/
  ready : (l.hearAll rs).live.Ready depth
  /-- The options stay the same. -/
  config : (l.hearAll rs).live.translation.config = l.translation.config
  /-- The key of the next measurement moves on. -/
  key : (l.hearAll rs).live.translation.measurementKey = keyAfter l.translation.measurementKey ps

theorem Echoes.append {l : Live} {depth depth' : Nat} {rs ss : List Report}
    {ps qs : List Primitive} (h : l.Echoes depth rs ps)
    (hs : (l.hearAll rs).live.Echoes depth' ss qs) : l.Echoes depth' (rs ++ ss) (ps ++ qs) := by
  have happend := hearAll_append h.breach ss
  refine ⟨?_, ?_, ?_, ?_, ?_⟩ <;> rw [happend]
  · exact hs.breach
  · simp only [echoedLines_append, List.map_append, h.lines, hs.lines]
  · exact hs.ready
  · exact hs.config.trans h.config
  · exact hs.key.trans (by rw [h.key, keyAfter_append])

theorem Ignores.echoes {l : Live} {depth : Nat} {rs : List Report} (h : l.Ignores rs)
    (hready : l.Ready depth) : l.Echoes depth rs [] := by
  unfold Ignores at h
  refine ⟨?_, ?_, ?_, ?_, ?_⟩ <;> rw [h]
  · rfl
  · exact hready
  · rfl

theorem Echoes.of_le {l : Live} {depth depth' : Nat} {rs : List Report} {ps : List Primitive}
    (h : l.Echoes depth rs ps) (hle : depth' ≤ depth) : l.Echoes depth' rs ps :=
  ⟨h.breach, h.lines, h.ready.of_le hle, h.config, h.key⟩

/-! ### Translating -/

/-- **An operation that is translated echoes its primitives.** -/
theorem emit_of_script {l : Live} {op : Operation} {ps : List Primitive}
    (hwritten : l.written = l.translation.lines.length) (hroom : l.sinkRoom = none)
    (hps : script l.translation.config l.translation.measurementKey op.leaves = .ok ps)
    (depth : Nat) :
    ∃ t : Translation, t.config = l.translation.config ∧
      t.measurementKey = keyAfter l.translation.measurementKey ps ∧
      (l.emit op depth).breach = none ∧
      echoedLines (l.emit op depth).entries = ps.map Primitive.render ∧
      (l.emit op depth).live = ⟨t, t.lines.length, l.handledDepth, none⟩ := by
  have hfollows := Translation.visit_follows op (depth - 1) l.translation
  rw [hps] at hfollows
  obtain ⟨hhalt, hconfig, hprimitives, hkey⟩ := hfollows
  set w := Translation.visit (depth - 1) op l.translation with hw
  have hfresh : (w.translation.lines.drop l.written).map ScriptLine.render =
      ps.map Primitive.render := by
    have hrender : ScriptLine.render = Primitive.render ∘ ScriptLine.primitive := rfl
    have hlength : l.translation.lines.length = l.translation.primitives.length := by
      unfold Translation.primitives; rw [List.length_map]
    unfold Translation.primitives at hprimitives hlength
    rw [hrender, ← List.map_map, List.map_drop, hprimitives, hwritten, hlength,
      List.drop_left]
  refine ⟨w.translation, hconfig, hkey, ?_⟩
  unfold emit
  simp only [← hw, hhalt, echo, hroom, hfresh, echoedLines_append, echoedLines_map_logged,
    echoedLines_map_echoed, List.nil_append, and_self]

theorem hear_started_of_class {l : Live} {op : Operation} {cls : GateClass} {depth : Nat}
    (hout : l.inHandledBody depth = false) (hcls : GateClass.classify op.gate = some cls) :
    l.hear (.started op depth) = { l with handledDepth := some depth }.emit op depth := by
  simp only [hear, hout, hcls, Option.isSome_some, if_true, if_false, Bool.false_eq_true]

/-- **An operation with a class echoes its primitives at its start**, whatever is reported from its
body. -/
theorem echoes_of_class {l : Live} {op : Operation} {cls : GateClass} {depth : Nat}
    {ps : List Primitive} {body : List Report} (hready : l.Ready depth)
    (hcls : GateClass.classify op.gate = some cls)
    (hps : op.classPrimitives l.translation.measurementKey cls = .ok ps)
    (hbody : ∀ l' : Live, l'.handledDepth = some depth → l'.Ignores body) :
    l.Echoes depth (.started op depth :: body) ps := by
  set handled : Live := { l with handledDepth := some depth } with hhandled
  have hscript : script l.translation.config l.translation.measurementKey op.leaves = .ok ps := by
    rw [Operation.leaves_of_classify hcls, script_singleton,
      Operation.leafPrimitives_of_classify hcls, hps]
  have hhear := hear_started_of_class hready.outside hcls
  obtain ⟨t, hconfig, hkey, hbreach, hlines, hlive⟩ :=
    emit_of_script (l := handled) hready.written hready.room hscript depth
  rw [← hhandled] at hhear
  rw [← hhear] at hbreach hlines hlive
  have hignores := hbody (l.hear (.started op depth)).live (by rw [hlive])
  unfold Ignores at hignores
  have hall := hearAll_cons_of_ok hbreach body
  rw [hignores, hlive] at hall
  refine ⟨?_, ?_, ?_, ?_, ?_⟩ <;> rw [hall]
  · simpa using hlines
  · exact ⟨rfl, rfl, decide_eq_false (Nat.lt_irrefl depth)⟩
  · exact hconfig
  · exact hkey

/-- An operation without a class echoes nothing at its start. -/
theorem echoes_started {l : Live} {op : Operation} {depth : Nat} (hready : l.Ready depth)
    (hcls : GateClass.classify op.gate = none) (depth' : Nat) :
    l.Echoes depth' [.started op depth] [] := by
  have hhear : l.hear (.started op depth) = ⟨{ l with handledDepth := none }, [], none⟩ := by
    simp only [hear, hready.outside, hcls, Option.isSome_none, if_false, Bool.false_eq_true]
  have hall := hearAll_cons_of_ok (l := l) (r := .started op depth) (by rw [hhear]) []
  rw [hhear] at hall
  refine ⟨?_, ?_, ?_, ?_, ?_⟩ <;> rw [hall]
  · rfl
  · rfl
  · exact ⟨hready.written, hready.room, rfl⟩
  · rfl
  · rfl

/-- **An exponential without calls echoes its primitives at its end.** -/
theorem echoes_ended {l : Live} {op : Operation} {depth : Nat} {ps : List Primitive}
    (hready : l.Ready depth) (hgate : op.gate = exponentialLabel) (hchildren : op.children = none)
    (hps : op.exponential = .ok ps) : l.Echoes depth [.ended op depth] ps := by
  have hcls : GateClass.classify op.gate = none := by rw [hgate]; rfl
  have hscript : script l.translation.config l.translation.measurementKey op.leaves = .ok ps := by
    rw [Operation.leaves_of_childless hcls hchildren, script_singleton,
      Operation.leafPrimitives_of_exponential hgate, hps]
  have hhear : l.hear (.ended op depth) = l.emit op depth := by
    simp [hear, hgate, Operation.hasChildren, hchildren, hready.outside]
  obtain ⟨t, hconfig, hkey, hbreach, hlines, hlive⟩ :=
    emit_of_script hready.written hready.room hscript depth
  rw [← hhear] at hbreach hlines hlive
  have hall := hearAll_cons_of_ok hbreach []
  rw [hearAll, hlive] at hall
  refine ⟨?_, ?_, ?_, ?_, ?_⟩ <;> rw [hall]
  · simpa using hlines
  · exact ⟨rfl, rfl, hready.outside⟩
  · exact hconfig
  · exact hkey

mutual

/-- **Nothing is echoed from a handled body.** -/
theorem ignores_calls {l : Live} {handled depth : Nat} (h : l.handledDepth = some handled)
    (hlt : handled < depth) (caller : Option Operation) (a : Allocator) :
    ∀ c : CallTree, l.Ignores (c.calls depth caller a)
  | .call source inner => by
    have hin : l.inHandledBody depth = true := by
      unfold inHandledBody; rw [h]; exact decide_eq_true hlt
    rw [CallTree.calls]
    refine Ignores.append (Ignores.append ?_ ?_) ?_
    · rcases (Tracer.opened caller a source).1 with _ | op
      · exact ignores_nil l
      · exact ignores_started hin op
    · exact ignores_callsAll h (Nat.lt_succ_of_lt hlt) _ _ inner
    · rcases (CallTree.results (Tracer.opened caller a source).1 (Tracer.opened caller a source).2
        inner).1 with _ | op
      · exact ignores_nil l
      · exact ignores_ended (Or.inr (Or.inr hin))

theorem ignores_callsAll {l : Live} {handled depth : Nat} (h : l.handledDepth = some handled)
    (hlt : handled < depth) (caller : Option Operation) (a : Allocator) :
    ∀ cs : List CallTree, l.Ignores (CallTree.callsAll depth caller a cs)
  | [] => ignores_nil l
  | c :: cs => by
    rw [CallTree.callsAll]
    exact (ignores_calls h hlt caller a c).append (ignores_callsAll h hlt _ _ cs)

end

end Live

end CircuitTrace
