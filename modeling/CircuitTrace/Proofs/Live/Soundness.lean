import CircuitTrace.Proofs.Live.EchoedPart
import CircuitTrace.Proofs.Live.Refinement

/-! # What is echoed stands in the final script

There are two ways in which a live translation may echo a line that the final script does not have.
An operation below an absent one is reported, but it is dropped with its absent caller; and an
operation with a class is echoed when it starts, but its calls may bring qubits to it that it is
then written on. `CallTree.Faithful` rules both out, and there is no third: the lines that a run
over a faithful tree echoes are a subsequence of the lines of the final script
(`echoed_sublist_final`). `exists_echoed_notMem_final` is a tree with an absent call, from which a
line is echoed that the final script does not have. -/

namespace CircuitTrace

/-! ### Faithful trees -/

namespace CallTree

open Tracer

mutual

/-- **A live translation is not misled by a call**: below an absent operation all reports are
silent, and an operation with a class that can be written when it starts is written in the same way
after it has taken in its calls. -/
def Faithful (depth : Nat) (caller : Option Operation) (a : Allocator) : CallTree → Prop
  | call source inner =>
    match (opened caller a source).1 with
    | none => ∀ r ∈ callsAll (depth + 1) none (opened caller a source).2 inner, r.Silent
    | some op =>
      match GateClass.classify op.gate with
      | some cls => ∀ op', (results (some op) (opened caller a source).2 inner).1 = some op' →
          ∀ key ps, op.classPrimitives key cls = .ok ps → op'.classPrimitives key cls = .ok ps
      | none => FaithfulAll (depth + 1) (some op) (opened caller a source).2 inner

/-- A live translation is not misled by calls one after the other. -/
def FaithfulAll (depth : Nat) (caller : Option Operation) (a : Allocator) : List CallTree → Prop
  | [] => True
  | c :: cs =>
    c.Faithful depth caller a ∧
      FaithfulAll depth (attach caller (c.result caller a).1) (c.result caller a).2 cs

end

end CallTree

namespace Live

variable {l : Live} {depth : Nat} {ps : List Primitive}

/-- **An operation without a class** echoes some of what is written from its body, and what it is
written as itself if it turns out to have no calls. -/
theorem echoesSome_of_no_class {op : Operation} {ops : List Operation} {body : List Report}
    (hready : l.Ready depth) (hcls : GateClass.classify op.gate = none)
    (hchildren : op.children = none)
    (hbody : ∀ {l' : Live} {qs : List Primitive}, l'.Ready (depth + 1) →
      script l'.translation.config l'.translation.measurementKey
        (Operation.leavesAll ops) = .ok qs →
      l'.EchoesSome (depth + 1) body qs)
    (hps : script l.translation.config l.translation.measurementKey
      (ops.foldl Operation.adopt op).leaves = .ok ps) :
    (echoedLines (l.hearAll (.started op depth :: body)).entries).Sublist
        (ps.map Primitive.render) ∧
      l.EchoesSome depth
        (.started op depth :: body ++ [.ended (ops.foldl Operation.adopt op) depth]) ps := by
  have hstart := echoes_started hready hcls (depth + 1)
  have hinner : ∀ {qs : List Primitive}, script l.translation.config l.translation.measurementKey
      (Operation.leavesAll ops) = .ok qs →
      l.EchoesSome depth (.started op depth :: body) qs := by
    intro qs hqs
    have hrest := hbody hstart.ready (by rw [hstart.config, hstart.key]; exact hqs)
    exact (hstart.some.append fun _ => hrest).of_le (Nat.le_succ depth)
  rcases ops with _ | ⟨c, ops⟩
  · -- nothing is written from the body, so at most the end of an exponential is echoed
    have hnone : l.EchoesSome depth (.started op depth :: body) [] := hinner rfl
    refine ⟨hnone.lines.trans (List.nil_sublist _), ?_⟩
    rw [List.foldl_nil, Operation.leaves_of_childless hcls hchildren, script_singleton,
      Operation.leafPrimitives_of_childless hcls] at hps
    show l.EchoesSome depth _ ([] ++ ps)
    refine hnone.append fun hb => ?_
    by_cases hexp : op.gate = exponentialLabel
    · rw [Operation.childlessPrimitives_of_exponential hexp] at hps
      exact (echoes_ended (hnone.ready hb) hexp hchildren hps).some
    · refine ((ignores_ended (Or.inl hexp)).echoes (hnone.ready hb)).some.of_nil ?_
      rw [← keyAfter_handled ps, Operation.handled_childlessPrimitives hps hexp, keyAfter_nil]
  · obtain ⟨hleaves, hended⟩ :=
      Operation.leaves_foldl_adopt hcls hchildren (List.cons_ne_nil c ops)
    rw [hleaves] at hps
    have hfirst := hinner hps
    refine ⟨hfirst.lines, ?_⟩
    have hend : (l.hearAll (.started op depth :: body)).live.Ignores
        [.ended ((c :: ops).foldl Operation.adopt op) depth] :=
      ignores_ended (Or.inr (Or.inl hended))
    have hboth := hfirst.append fun hb => (hend.echoes (hfirst.ready hb)).some
    rwa [List.append_nil] at hboth

/-- **An operation and its calls** echo some of what is written of the operation that results, if
the calls of an operation without a class do. -/
theorem echoesSome_of_opened {op : Operation} {a : Allocator} {inner : List CallTree}
    (hready : l.Ready depth) (hchildren : op.children = none)
    (hclass : ∀ cls op', GateClass.classify op.gate = some cls →
      (CallTree.results (some op) a inner).1 = some op' →
      ∀ key qs, op.classPrimitives key cls = .ok qs → op'.classPrimitives key cls = .ok qs)
    (hcalls : GateClass.classify op.gate = none → ∀ {l' : Live} {qs : List Primitive},
      l'.Ready (depth + 1) →
      script l'.translation.config l'.translation.measurementKey
        (Operation.leavesAll (CallTree.returned (some op) a inner)) = .ok qs →
      l'.EchoesSome (depth + 1) (CallTree.callsAll (depth + 1) (some op) a inner) qs)
    (hps : script l.translation.config l.translation.measurementKey
      (Operation.leavesAll (CallTree.results (some op) a inner).1.toList) = .ok ps) :
    (echoedLines (l.hearAll
        (.started op depth :: CallTree.callsAll (depth + 1) (some op) a inner)).entries).Sublist
        (ps.map Primitive.render) ∧
      l.EchoesSome depth (.started op depth :: CallTree.callsAll (depth + 1) (some op) a inner ++
        Tracer.endReport depth (CallTree.results (some op) a inner).1) ps := by
  rcases hcls : GateClass.classify op.gate with _ | cls
  · have hresult := CallTree.results_eq_foldl_adopt inner op a
      (Operation.isControlledX_of_no_class hcls)
    rw [hresult, Option.toList_some, Operation.leavesAll_singleton] at hps
    rw [hresult]
    exact echoesSome_of_no_class hready hcls hchildren (hcalls hcls) hps
  · obtain ⟨op', hresult, hgate⟩ := CallTree.exists_results_gate inner op a
    have hcls' : GateClass.classify op'.gate = some cls := hgate ▸ hcls
    rw [hresult, Option.toList_some, Operation.leavesAll_singleton,
      Operation.leaves_of_classify hcls', script_singleton,
      Operation.leafPrimitives_of_classify hcls'] at hps
    rw [hresult]
    have hok : ∀ qs, op.classPrimitives l.translation.measurementKey cls = .ok qs → qs = ps := by
      intro qs hqs
      have hfinal := hclass cls op' hcls hresult _ qs hqs
      rw [hps] at hfinal
      exact (Except.ok.inj hfinal).symm
    have hkey : cls ≠ .measurement →
        keyAfter l.translation.measurementKey ps = l.translation.measurementKey := fun hne =>
      Operation.keyAfter_classPrimitives hne hps
    have hbody : ∀ l' : Live, l'.handledDepth = some depth →
        l'.Ignores (CallTree.callsAll (depth + 1) (some op) a inner) := fun l' hl' =>
      ignores_callsAll hl' (Nat.lt_succ_self depth) _ _ inner
    -- what the calls report is passed over, be it faithful or not
    refine ⟨(echoesSome_of_class hready hcls hok hkey hbody).lines, ?_⟩
    refine echoesSome_of_class hready hcls hok hkey fun l' hl' => (hbody l' hl').append ?_
    exact ignores_ended (Or.inl (Operation.ne_exponentialLabel_of_class hcls'))

mutual

/-- **A faithful tree of calls echoes some of what is written of its result**, if its caller has no
class. -/
theorem echoesSome_calls {caller : Operation} : ∀ (c : CallTree) {depth : Nat} {a : Allocator}
    {l : Live} {ps : List Primitive}, c.Faithful depth (some caller) a → l.Ready depth →
      script l.translation.config l.translation.measurementKey
        (Operation.leavesAll (c.result (some caller) a).1.toList) = .ok ps →
      l.EchoesSome depth (c.calls depth (some caller) a) ps
  | .call source inner, depth, a, l, ps, hfaithful, hready, hps => by
    rw [CallTree.calls]
    rw [CallTree.result] at hps
    rw [CallTree.Faithful] at hfaithful
    rcases hentry : (Tracer.opened (some caller) a source).1 with _ | op <;>
      rw [hentry] at hfaithful hps
    · -- an absent operation and all that is below it leave nothing behind
      rw [CallTree.results_none] at hps ⊢
      cases hps
      have hsilent := echoesSome_of_forall_silent hready
        (fun r hr => (CallTree.from_of_mem_callsAll hr).of_succ) hfaithful
      simpa [Tracer.startReport, Tracer.endReport] using hsilent
    · refine (echoesSome_of_opened hready (Tracer.children_opened hentry) ?_ ?_ hps).2
      · intro cls op' hcls hresult
        simp only [hcls] at hfaithful
        exact hfaithful op' hresult
      · intro hcls l' qs hready' hqs
        simp only [hcls] at hfaithful
        exact echoesSome_callsAll hcls inner hfaithful hready' hqs

/-- **Faithful calls one after the other echo some of what is written of their results**, if their
caller has no class. -/
theorem echoesSome_callsAll {caller : Operation} (hcaller : GateClass.classify caller.gate = none) :
    ∀ (cs : List CallTree) {depth : Nat} {a : Allocator} {l : Live} {ps : List Primitive},
    CallTree.FaithfulAll depth (some caller) a cs → l.Ready depth →
      script l.translation.config l.translation.measurementKey
        (Operation.leavesAll (CallTree.returned (some caller) a cs)) = .ok ps →
      l.EchoesSome depth (CallTree.callsAll depth (some caller) a cs) ps
  | [], _, _, l, _, _, hready, hps => by
    cases hps
    exact ((ignores_nil l).echoes hready).some
  | c :: cs, depth, a, l, ps, hfaithful, hready, hps => by
    obtain ⟨hc, hcs⟩ := hfaithful
    rw [CallTree.returned, Operation.leavesAll_append, script_append_eq_ok_iff] at hps
    obtain ⟨qs, rs, hqs, hrs, rfl⟩ := hps
    have hfirst := echoesSome_calls c hc hready hqs
    obtain ⟨caller', hattach, hcaller'⟩ := Tracer.exists_attach caller (c.result (some caller) a).1
    have hgate : caller'.gate = caller.gate := by
      rcases hcaller' with rfl | ⟨call, -, rfl⟩ <;> rfl
    rw [hattach] at hcs hrs
    rw [CallTree.callsAll, hattach]
    refine hfirst.append fun hb => ?_
    refine echoesSome_callsAll (hgate ▸ hcaller) cs hcs (hfirst.ready hb) ?_
    rw [hfirst.config hb, hfirst.key hb]
    exact hrs

end

/-- **A faithful tree echoes some of the lines of its result** while a trace of it is captured. -/
theorem echoed_sublist_script {c : CallTree} (hfaithful : c.Faithful 1 none .empty)
    (hready : l.Ready 1)
    (hps : script l.translation.config l.translation.measurementKey
      (Operation.leavesAll (c.result none .empty).1.toList) = .ok ps) :
    (echoedLines (l.hearAll (Tracer.empty.watched c.notifications)).entries).Sublist
      (ps.map Primitive.render) := by
  obtain ⟨source, inner⟩ := c
  have hwatched := CallTree.watched_forest (.call source inner) []
  rw [CallTree.forest, CallTree.forest, List.append_nil, List.append_nil] at hwatched
  rw [hwatched]
  rw [CallTree.result] at hps
  rw [CallTree.Faithful] at hfaithful
  simp only [CallTree.source, CallTree.inner]
  rcases hentry : (Tracer.opened none .empty source).1 with _ | op <;>
    rw [hentry] at hfaithful hps
  · rw [CallTree.results_none] at hps
    cases hps
    exact (echoesSome_of_forall_silent hready
      (fun r hr => (CallTree.from_of_mem_callsAll hr).of_succ) hfaithful).lines
  · refine (echoesSome_of_opened hready (Tracer.children_opened hentry) ?_ ?_ hps).1
    · intro cls op' hcls hresult
      simp only [hcls] at hfaithful
      exact hfaithful op' hresult
    · intro hcls l' qs hready' hqs
      simp only [hcls] at hfaithful
      exact echoesSome_callsAll hcls inner hfaithful hready' hqs

end Live

/-- **What is echoed stands in the final script.** Let a balanced run over a faithful tree of calls
be translated live, and let the final translation of the path not be stopped when it is not strict.
Then the lines that are echoed, be it that the contract is broken meanwhile, are a subsequence of
the lines of the final script. -/
theorem echoed_sublist_final (config : Config) (c : CallTree)
    (hfaithful : c.Faithful 1 none .empty)
    (hfinal : ((Translation.new { config with strict := false }).visitAll
      (Tracer.empty.replay c.notifications).executionPath.operations).halt = none) :
    (echoedLines
        ((Session.mk .empty (some (.new config none))).run c.notifications).entries).Sublist
      (((Translation.new { config with strict := false }).visitAll
        (Tracer.empty.replay c.notifications).executionPath.operations).translation.lines.map
          ScriptLine.render) := by
  have hpath : (Tracer.empty.replay c.notifications).executionPath.operations =
      (c.result none .empty).1.toList := by
    obtain ⟨source, inner⟩ := c
    have hforest := CallTree.executionPath_forest (.call source inner) []
    rw [CallTree.forest, CallTree.forest, List.append_nil] at hforest
    rw [hforest, CallTree.path, CallTree.extend, CallTree.source, CallTree.inner, List.append_nil]
  rw [hpath] at hfinal ⊢
  have hscript := Translation.script_of_halt hfinal
  have hechoed := Live.echoed_sublist_script hfaithful
    (l := .new config none) ⟨rfl, rfl, rfl⟩ hscript
  have hrender : ScriptLine.render = Primitive.render ∘ ScriptLine.primitive := rfl
  obtain ⟨-, -, hlines⟩ := Session.run_of_watched c.notifications .empty (.new config none)
  rw [hlines, hrender, ← List.map_map]
  exact hechoed

/-- An absent call with a call that is silent, a gate with a body, a rotation that gets its qubit from
its body, so that it is not echoed, and a measurement. -/
theorem echoed_sublist_final_of_five :
    let c : CallTree := .call (.ok (some (.ofTargets "Main" [])))
      [.call (.ok none) [.call (.ok (some (.ofTargets "Oracle" [0]))) []],
        .call (.ok (some (.ofTargets "H" [0])))
          [.call (.ok (some
            ((Metadata.ofTargets "Interface_Clifford" [0]).withArgs "(1, PauliI)"))) []],
        .call (.ok (some ((Metadata.ofTargets "R" []).withArgs "(PauliZ, 0.5)")))
          [.call (.ok (some (.ofTargets "Inner" [1]))) []],
        .call (.ok (some (Metadata.ofTargets "M" [0]).measurement)) []]
    let echoed :=
      echoedLines ((Session.mk .empty (some (.new .default none))).run c.notifications).entries
    c.Faithful 1 none .empty ∧
      echoed = ["H(qubits[0])", "measure(qubits[0], key='0')"] ∧
      echoed.Sublist
        ["H(qubits[0])", "rz(rads=0.5).on(qubits[1])", "measure(qubits[0], key='0')"] := by
  intro c echoed
  have hfaithful : c.Faithful 1 none .empty := by
    refine ⟨?_, ?_, ?_, ?_, trivial⟩
    · intro r hr
      rcases List.mem_pair.mp hr with rfl | rfl
      · intro cls key ps hcls
        cases hcls
      · intro ps hgate
        exact absurd hgate (by decide)
    · intro op' hop key ps h
      cases hop
      exact h
    · intro op' hop key ps h
      cases h
    · intro op' hop key ps h
      cases hop
      exact h
  have hlines : ((Translation.new { Config.default with strict := false }).visitAll
      (Tracer.empty.replay c.notifications).executionPath.operations).translation.lines.map
        ScriptLine.render =
      ["H(qubits[0])", "rz(rads=0.5).on(qubits[1])", "measure(qubits[0], key='0')"] := by
    decide +kernel
  have hsublist := echoed_sublist_final .default c hfaithful (by decide +kernel)
  rw [hlines] at hsublist
  exact ⟨hfaithful, by decide +kernel, hsublist⟩

/-- **A line may be echoed that the final script does not have**: that of a gate below an absent
call, which is dropped with it. -/
theorem exists_echoed_notMem_final :
    ∃ (c : CallTree) (config : Config),
      c = .call (.ok (some (.ofTargets "Main" [])))
        [.call (.ok none) [.call (.ok (some (.ofTargets "H" [0]))) []]] ∧
      config = { Config.default with renderUnhandled := false } ∧
      let echoed :=
        echoedLines ((Session.mk .empty (some (.new config none))).run c.notifications).entries
      let final := (Translation.new { config with strict := false }).visitAll
        (Tracer.empty.replay c.notifications).executionPath.operations
      final.halt = none ∧ echoed = ["H(qubits[0])"] ∧ final.translation.lines = [] ∧
        ¬ echoed.Sublist (final.translation.lines.map ScriptLine.render) :=
  ⟨_, _, rfl, rfl, by decide +kernel, by decide +kernel, by decide +kernel, by decide +kernel⟩

end CircuitTrace
