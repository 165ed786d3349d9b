import CircuitTrace.Proofs.Live.Echo
import CircuitTrace.Proofs.Translation.Handled
import CircuitTrace.Script.Layout

/-! # Live and final translation agree

A live translation knows an operation when it starts, without its calls, or when it ends; the final
translation walks through the finished tree. While the live translation hears what a tree of calls
reports, it echoes the handled primitives of the leaves of its result (`echoes_calls`,
`echoes_callsAll`). An operation with a class echoes all of them at its start, and its body is
passed over; an operation without a class echoes what its calls echo, and an exponential that turned
out to have no calls follows at its end (`echoes_of_opened`). The outermost operation never ends, so
it must not be an exponential (`echoes_forest`).

`live_refines_final` compares the texts: what is echoed during an orderly run is the final script
without the comments of unhandled operations. -/

namespace CircuitTrace

namespace Operation

theorem isControlledX_of_no_class {op : Operation} (h : GateClass.classify op.gate = none) :
    op.isControlledX = false := by
  have hX : op.gate ≠ "X" := by
    intro hgate
    rw [hgate] at h
    cases h
  unfold isControlledX
  rw [decide_eq_false hX, Bool.false_and]

theorem ne_exponentialLabel_of_class {op : Operation} {cls : GateClass}
    (h : GateClass.classify op.gate = some cls) : op.gate ≠ exponentialLabel := by
  intro hgate
  rw [hgate] at h
  cases h

theorem gate_foldl_adopt (ops : List Operation) (op : Operation) :
    (ops.foldl adopt op).gate = op.gate := by
  induction ops generalizing op with
  | nil => rfl
  | cons c ops ih => rw [List.foldl_cons, ih, gate_adopt]

theorem children_foldl_adopt : ∀ (ops : List Operation) (op : Operation), ops ≠ [] →
    (ops.foldl adopt op).children = some (op.calls ++ ops)
  | [c], _, _ => rfl
  | c :: c' :: ops, op, _ => by
    rw [List.foldl_cons, children_foldl_adopt (c' :: ops) (op.adopt c) (List.cons_ne_nil _ _),
      calls_adopt, List.append_assoc, List.singleton_append]

/-- An operation without a class that has taken in calls is expanded into them. -/
theorem leaves_foldl_adopt {op : Operation} {ops : List Operation}
    (hcls : GateClass.classify op.gate = none) (hchildren : op.children = none) (hops : ops ≠ []) :
    (ops.foldl adopt op).leaves = leavesAll ops ∧ (ops.foldl adopt op).hasChildren = true := by
  have hsome := children_foldl_adopt ops op hops
  have hcalls : op.calls = [] := by unfold calls; rw [hchildren]; rfl
  have hgate := gate_foldl_adopt ops op
  rw [hcalls, List.nil_append] at hsome
  refine ⟨leaves_of_children (hgate ▸ hcls) hsome, ?_⟩
  unfold hasChildren
  rw [hsome]
  rfl

end Operation

namespace Live

/-- **An operation without a class** echoes what is echoed from its body, and what it is written as
itself if it turns out to have no calls. It has to end for that if it is an exponential. -/
theorem echoes_of_no_class {l : Live} {op : Operation} {depth : Nat} {ops : List Operation}
    {body : List Report} {ps : List Primitive} (hready : l.Ready depth)
    (hcls : GateClass.classify op.gate = none) (hchildren : op.children = none)
    (hbody : ∀ {l' : Live} {qs : List Primitive}, l'.Ready (depth + 1) →
      script l'.translation.config l'.translation.measurementKey
        (Operation.leavesAll ops) = .ok qs →
      l'.Echoes (depth + 1) body (handled qs))
    (hps : script l.translation.config l.translation.measurementKey
      (ops.foldl Operation.adopt op).leaves = .ok ps) :
    (op.gate ≠ exponentialLabel → l.Echoes depth (.started op depth :: body) (handled ps)) ∧
      l.Echoes depth (.started op depth :: body ++ [.ended (ops.foldl Operation.adopt op) depth])
        (handled ps) := by
  have hstart := echoes_started hready hcls (depth + 1)
  have hinner : ∀ {qs : List Primitive}, script l.translation.config l.translation.measurementKey
      (Operation.leavesAll ops) = .ok qs →
      l.Echoes depth (.started op depth :: body) (handled qs) := by
    intro qs hqs
    have hrest := hbody hstart.ready (by rw [hstart.config, hstart.key]; exact hqs)
    exact (hstart.append hrest).of_le (Nat.le_succ depth)
  rcases ops with _ | ⟨c, ops⟩
  · -- without calls nothing comes from the body
    have hnone : l.Echoes depth (.started op depth :: body) [] := hinner rfl
    have hready' := hnone.ready
    rw [List.foldl_nil, Operation.leaves_of_childless hcls hchildren, script_singleton,
      Operation.leafPrimitives_of_childless hcls] at hps
    by_cases hexp : op.gate = exponentialLabel
    · rw [Operation.childlessPrimitives_of_exponential hexp] at hps
      refine ⟨fun h => absurd hexp h, ?_⟩
      rw [handled_eq_self (Operation.isUnhandled_exponential hps)]
      exact hnone.append (echoes_ended hready' hexp hchildren hps)
    · rw [Operation.handled_childlessPrimitives hps hexp]
      exact ⟨fun _ => hnone, hnone.append ((ignores_ended (Or.inl hexp)).echoes hready')⟩
  · obtain ⟨hleaves, hended⟩ :=
      Operation.leaves_foldl_adopt hcls hchildren (List.cons_ne_nil c ops)
    rw [hleaves] at hps
    have hfirst := hinner hps
    refine ⟨fun _ => hfirst, ?_⟩
    have hend : (l.hearAll (.started op depth :: body)).live.Ignores
        [.ended ((c :: ops).foldl Operation.adopt op) depth] :=
      ignores_ended (Or.inr (Or.inl hended))
    have happend := hfirst.append (hend.echoes hfirst.ready)
    rwa [List.append_nil] at happend

/-- **An operation and its calls** echo the handled primitives of what the operation becomes, if the
calls of an operation without a class do. An exponential has to end for that. -/
theorem echoes_of_opened {l : Live} {op : Operation} {a : Allocator}
    {below : List (Option Operation)} {under : List Operation} {depth : Nat}
    {inner : List CallTree} {ps : List Primitive} (hready : l.Ready depth)
    (hchildren : op.children = none)
    (horderly : (Tracer.mk a (some op :: below)).Orderly (op :: under) (CallTree.forest inner))
    (hcalls : GateClass.classify op.gate = none → ∀ {l' : Live} {qs : List Primitive},
      l'.Ready (depth + 1) →
      script l'.translation.config l'.translation.measurementKey
        (Operation.leavesAll (CallTree.returned (some op) a inner)) = .ok qs →
      l'.Echoes (depth + 1) (CallTree.callsAll (depth + 1) (some op) a inner) (handled qs))
    (hps : script l.translation.config l.translation.measurementKey
      (Operation.leavesAll (CallTree.results (some op) a inner).1.toList) = .ok ps) :
    (op.gate ≠ exponentialLabel →
      l.Echoes depth (.started op depth :: CallTree.callsAll (depth + 1) (some op) a inner)
        (handled ps)) ∧
      l.Echoes depth (.started op depth :: CallTree.callsAll (depth + 1) (some op) a inner ++
        Tracer.endReport depth (CallTree.results (some op) a inner).1) (handled ps) := by
  rcases hcls : GateClass.classify op.gate with _ | cls
  · have hresult := CallTree.results_eq_foldl_adopt inner op a
      (Operation.isControlledX_of_no_class hcls)
    rw [hresult, Option.toList_some, Operation.leavesAll_singleton] at hps
    rw [hresult]
    exact echoes_of_no_class hready hcls hchildren (hcalls hcls) hps
  · have hcovers := CallTree.covers_of_orderly_forest hcls List.mem_cons_self (depth + 1)
      inner horderly
    obtain ⟨op', hresult, hgate, hprimitives⟩ := CallTree.exists_results_of_class hcovers
    have hcls' : GateClass.classify op'.gate = some cls := hgate ▸ hcls
    rw [hresult, Option.toList_some, Operation.leavesAll_singleton,
      Operation.leaves_of_classify hcls', script_singleton,
      Operation.leafPrimitives_of_classify hcls', hprimitives] at hps
    rw [hresult, handled_eq_self (Operation.isUnhandled_classPrimitives hps)]
    have hbody : ∀ l' : Live, l'.handledDepth = some depth →
        l'.Ignores (CallTree.callsAll (depth + 1) (some op) a inner) := fun l' hl' =>
      ignores_callsAll hl' (Nat.lt_succ_self depth) _ _ inner
    refine ⟨fun _ => echoes_of_class hready hcls hps hbody, ?_⟩
    refine echoes_of_class hready hcls hps fun l' hl' => (hbody l' hl').append ?_
    exact ignores_ended (Or.inl (Operation.ne_exponentialLabel_of_class hcls'))

/-! ### Trees of calls -/

mutual

/-- **A tree of calls echoes the handled primitives of its result**, if its caller has no class. -/
theorem echoes_calls {caller : Operation} {below : List (Option Operation)}
    {under : List Operation} {depth : Nat} : ∀ (c : CallTree) {a : Allocator} {l : Live}
    {ps : List Primitive},
    (Tracer.mk a (some caller :: below)).Orderly under c.notifications → l.Ready depth →
      script l.translation.config l.translation.measurementKey
        (Operation.leavesAll (c.result (some caller) a).1.toList) = .ok ps →
      l.Echoes depth (c.calls depth (some caller) a) (handled ps)
  | .call source inner, a, l, ps, horderly, hready, hps => by
    obtain ⟨-, -, hinner⟩ := CallTree.orderly_call horderly
    rw [CallTree.calls]
    rw [CallTree.result] at hps
    rcases hentry : (Tracer.opened (some caller) a source).1 with _ | op <;>
      rw [hentry] at hinner hps
    · -- nothing starts under an absent operation
      obtain rfl := CallTree.eq_nil_of_orderly hinner
      cases hps
      exact (ignores_nil l).echoes hready
    · exact (echoes_of_opened hready (Tracer.children_opened hentry) hinner
        (fun hcls _ _ hready' => echoes_callsAll hcls inner hinner hready') hps).2

/-- **Calls one after the other echo the handled primitives of their results**, if their caller has
no class. -/
theorem echoes_callsAll {caller : Operation} (hcaller : GateClass.classify caller.gate = none)
    {below : List (Option Operation)} {under : List Operation} {depth : Nat} :
    ∀ (cs : List CallTree) {a : Allocator} {l : Live} {ps : List Primitive},
    (Tracer.mk a (some caller :: below)).Orderly under (CallTree.forest cs) → l.Ready depth →
      script l.translation.config l.translation.measurementKey
        (Operation.leavesAll (CallTree.returned (some caller) a cs)) = .ok ps →
      l.Echoes depth (CallTree.callsAll depth (some caller) a cs) (handled ps)
  | [], _, l, _, _, hready, hps => by
    cases hps
    exact (ignores_nil l).echoes hready
  | c :: cs, a, l, ps, horderly, hready, hps => by
    obtain ⟨hc, hcs⟩ := CallTree.orderly_forest_cons horderly
    rw [CallTree.returned, Operation.leavesAll_append, script_append_eq_ok_iff] at hps
    obtain ⟨qs, rs, hqs, hrs, rfl⟩ := hps
    have hfirst := echoes_calls c hc hready hqs
    obtain ⟨caller', hattach, hcaller'⟩ := Tracer.exists_attach caller (c.result (some caller) a).1
    have hgate : caller'.gate = caller.gate := by
      rcases hcaller' with rfl | ⟨call, -, rfl⟩ <;> rfl
    rw [hattach] at hcs hrs
    rw [CallTree.callsAll, hattach, handled_append]
    refine hfirst.append (echoes_callsAll (hgate ▸ hcaller) cs hcs hfirst.ready ?_)
    rw [hfirst.config, hfirst.key, keyAfter_handled]
    exact hrs

end

/-! ### Whole runs -/

/-- **An orderly run echoes the handled primitives of its path**, unless the outermost operation is
an exponential. -/
theorem echoes_forest {l : Live} {c : CallTree} {cs : List CallTree} {ps : List Primitive}
    (horderly : Tracer.empty.Orderly [] (CallTree.forest (c :: cs)))
    (hroot : ∀ op, ((c.extend cs).result none .empty).1 = some op → op.gate ≠ exponentialLabel)
    (hready : l.Ready 1)
    (hps : script l.translation.config l.translation.measurementKey
      (Operation.leavesAll ((c.extend cs).result none .empty).1.toList) = .ok ps) :
    l.Echoes 1 (Tracer.empty.watched (CallTree.forest (c :: cs))) (handled ps) := by
  have hinner := CallTree.orderly_under_root horderly
  rw [CallTree.watched_forest]
  rw [CallTree.extend, CallTree.result] at hps hroot
  rcases hentry : (Tracer.opened none .empty c.source).1 with _ | op <;>
    rw [hentry] at hinner hps hroot
  · have hnil := CallTree.eq_nil_of_orderly hinner
    rw [hnil] at hps ⊢
    cases hps
    exact (ignores_nil l).echoes hready
  · have hgate : op.gate ≠ exponentialLabel := by
      obtain ⟨op', hresult, hop'⟩ := CallTree.exists_results_gate (c.inner ++ cs) op
        (Tracer.opened none .empty c.source).2
      exact hop' ▸ hroot op' hresult
    exact (echoes_of_opened hready (Tracer.children_opened hentry) hinner
      (fun hcls _ _ hready' => echoes_callsAll hcls (c.inner ++ cs) hinner hready') hps).1 hgate

end Live

/-- **Live translation refines the final translation.** Let trees of calls be notified in an orderly
run, the outermost operation of which is no exponential, and let the final translation of the path
not be stopped when it is not strict. Then nothing breaks the contract of a live translation whose
sink takes everything, the tracer is not disturbed by it, and the text that it echoes is the text of
the final lines without the comments of unhandled operations. -/
theorem live_refines_final (config : Config) (cs : List CallTree)
    (horderly : Tracer.empty.Orderly [] (CallTree.forest cs))
    (hroot : ∀ op, (Tracer.empty.replay (CallTree.forest cs)).stack.getLast? = some (some op) →
      op.gate ≠ exponentialLabel)
    (hfinal : ((Translation.new { config with strict := false }).visitAll
      (Tracer.empty.replay (CallTree.forest cs)).executionPath.operations).halt = none) :
    ((Session.mk .empty (some (.new config none))).run (CallTree.forest cs)).breach = none ∧
      ((Session.mk .empty (some (.new config none))).run (CallTree.forest cs)).session.tracer =
        Tracer.empty.replay (CallTree.forest cs) ∧
      unlines (echoedLines
          ((Session.mk .empty (some (.new config none))).run (CallTree.forest cs)).entries) =
        unlines ((((Translation.new { config with strict := false }).visitAll
              (Tracer.empty.replay
                (CallTree.forest cs)).executionPath.operations).translation.lines.filter
            fun line => !line.primitive.isUnhandled).map ScriptLine.render) := by
  set t := Translation.new { config with strict := false } with ht
  set ops := (Tracer.empty.replay (CallTree.forest cs)).executionPath.operations with hops
  obtain ⟨ps, hps, hprimitives⟩ : ∃ ps,
      script t.config t.measurementKey (Operation.leavesAll ops) = .ok ps ∧
        (t.visitAll ops).translation.primitives = ps := by
    have hfollows := t.visitAll_follows ops
    rcases hscript : script t.config t.measurementKey (Operation.leavesAll ops) with h | ps <;>
      rw [hscript] at hfollows
    · exact absurd (hfinal.symm.trans hfollows) (by simp)
    · exact ⟨ps, rfl, hfollows.2.2.1⟩
  have hechoes : (Live.new config none).Echoes 1 (Tracer.empty.watched (CallTree.forest cs))
      (handled ps) := by
    have hready : (Live.new config none).Ready 1 := ⟨rfl, rfl, rfl⟩
    rcases cs with _ | ⟨c, cs⟩
    · cases hps
      exact (Live.ignores_nil _).echoes hready
    · rw [CallTree.replay_forest] at hroot
      rw [hops, CallTree.executionPath_forest] at hps
      exact Live.echoes_forest horderly (fun op hop => hroot op (by rw [hop]; rfl)) hready hps
  obtain ⟨-, hbreach, hlines⟩ :=
    Session.run_of_watched (CallTree.forest cs) .empty (.new config none)
  refine ⟨hbreach.trans hechoes.breach, by rw [Session.session_run hechoes.breach], ?_⟩
  have hrender : ScriptLine.render = Primitive.render ∘ ScriptLine.primitive := rfl
  rw [hlines, hechoes.lines, ← hprimitives, hrender, ← List.map_map]
  unfold handled Translation.primitives
  rw [List.filter_map]
  rfl

/-- A gate with a body, an operation that cannot be expressed, an X under control that is told
twice, an exponential and a measurement. -/
theorem live_refines_final_of_five :
    unlines (echoedLines ((Session.mk .empty (some (.new .default none))).run (CallTree.forest
      [.call (.ok (some (.ofTargets "Main" [])))
        [.call (.ok (some (.ofTargets "H" [0])))
          [.call (.ok (some
            ((Metadata.ofTargets "Interface_Clifford" [0]).withArgs "(1, PauliI)"))) []],
        .call (.ok (some (.ofTargets "Oracle" [1]))) [],
        .call (.ok (some ((Metadata.ofTargets "X" [1]).withControls [0])))
          [.call (.ok (some ((Metadata.ofTargets "X" [1]).withControls [0]))) []],
        .call (.ok (some ((Metadata.ofTargets "Exp" [0]).withArgs "([PauliX], 0.5)"))) [],
        .call (.ok (some (Metadata.ofTargets "M" [0]).measurement)) []]])).entries) =
      unlines ["H(qubits[0])", "X(qubits[1]).controlled_by(qubits[0])", "H(qubits[0])",
        "rz(rads=-2.0*0.5).on(qubits[0])", "H(qubits[0])", "measure(qubits[0], key='0')"] := by
  refine (live_refines_final .default _ (by decide +kernel) ?_ (by decide +kernel)).2.2.trans ?_
  · intro op h
    rw [CallTree.replay_forest] at h
    cases h
    decide +kernel
  · exact congrArg unlines (by decide +kernel)

end CircuitTrace
