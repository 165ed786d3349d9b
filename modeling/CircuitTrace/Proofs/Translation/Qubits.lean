import CircuitTrace.Proofs.Trace.WellFormed
import CircuitTrace.Proofs.Translation.Handled
import CircuitTrace.Script.Layout
import Mathlib.Data.List.Perm.Subperm

/-! # The qubits of a script

A script makes as many qubits as the trace has declared, numbered from zero, and refers to them by
the numbers of the trace. What it is written on never leaves the trace: the primitives of an
operation lie on the qubits of its registers (`on_leafPrimitives`), these lie on the declared ones
because captured paths are well-formed, so every number of a script is declared
(`mem_qubits_visitAll`).

That is enough for all of them to exist if the trace numbers its qubits from zero without gaps, and
no other numbering is safe (`eq_range_iff`): `translated_qubits_exist` says both.
`exists_missing_qubit` is a trace of one qubit with the number 5, the script of which makes one
qubit and writes on `qubits[5]`. -/

namespace CircuitTrace

/-- The numbers of the qubits that a primitive is written on, controls included. -/
def Primitive.qubits (p : Primitive) : List Nat := p.instruction.qubits ++ p.controls

/-- The numbers of the qubits that the lines of a script are written on. -/
def Translation.qubits (t : Translation) : List Nat := t.primitives.flatMap Primitive.qubits

/-- The primitives are written on qubits of a set. -/
def OnQubits (s : Nat → Prop) (ps : List Primitive) : Prop := ∀ p ∈ ps, ∀ q ∈ p.qubits, s q

namespace OnQubits

variable {s : Nat → Prop}

theorem nil : OnQubits s [] := fun _ h => absurd h List.not_mem_nil

theorem append {ps qs : List Primitive} (hps : OnQubits s ps) (hqs : OnQubits s qs) :
    OnQubits s (ps ++ qs) := fun p hp =>
  (List.mem_append.mp hp).elim (hps p) (hqs p)

theorem singleton {p : Primitive} (h : ∀ q ∈ p.qubits, s q) : OnQubits s [p] := fun _ hp =>
  List.mem_singleton.mp hp ▸ h

theorem cliffordPrimitives {index : Nat} {correction : Pauli} {qubits controls : List Nat}
    (hqubits : ∀ q ∈ qubits, s q) (hcontrols : ∀ q ∈ controls, s q) :
    OnQubits s (cliffordPrimitives index correction qubits controls) := by
  intro p hp q hq
  obtain ⟨symbol, -, rfl⟩ := List.mem_map.mp hp
  rcases List.mem_append.mp hq with hq | hq
  · exact hqubits q hq
  · exact hcontrols q hq

/-- An exponential is written on its own qubits. -/
theorem exponentialPrimitives {qubits : List Nat} {args : ExponentialArgs} {ps : List Primitive}
    (hqubits : ∀ q ∈ qubits, s q) (h : exponentialPrimitives qubits args = .ok ps) :
    OnQubits s ps := by
  have hfactor : ∀ f ∈ activeFactors qubits args.basis, s f.1 := by
    intro f hf
    have hzip : f ∈ qubits.zip args.basis := (List.mem_filter.mp hf).1
    exact hqubits f.1 (List.of_mem_zip hzip).1
  intro p hp
  cases isExponentialGate_of_mem h p hp with
  | basis hf | rotation hf => exact List.forall_mem_singleton.mpr (hfactor _ hf)
  | flip hlength hactive hq =>
    obtain ⟨f, hf, rfl⟩ := List.mem_map.mp hq
    rw [hactive] at hfactor
    refine List.forall_mem_cons.mpr ⟨hfactor f (List.mem_cons_of_mem _ hf), ?_⟩
    exact List.forall_mem_singleton.mpr (hfactor _ List.mem_cons_self)
  | phase hqubit => exact List.forall_mem_singleton.mpr (hqubits _ hqubit)

end OnQubits

namespace Operation

/-- **An operation touches a qubit** if one of its registers belongs to it. -/
def Touches (op : Operation) (q : Nat) : Prop := ∃ r ∈ op.controls ++ op.targets, r.qubitId = q

theorem touches_of_mem_controlQubits {op : Operation} {q : Nat} (h : q ∈ op.controlQubits) :
    op.Touches q := by
  obtain ⟨r, hr, hq⟩ := List.mem_map.mp (mem_firstSeen.mp h)
  exact ⟨r, List.mem_append_left _ hr, hq⟩

theorem touches_of_mem_targetQubits {op : Operation} {except : List Nat} {q : Nat}
    (h : q ∈ op.targetQubits except) : op.Touches q := by
  obtain ⟨r, hr, hq⟩ := List.mem_map.mp (mem_targetQubits.mp h).1
  exact ⟨r, List.mem_append_right _ hr, hq⟩

/-- A gate on what the operation acts on, under its controls. -/
theorem on_gate {op : Operation} {except controls : List Nat} {instruction : Instruction}
    (hinstruction : instruction.qubits = op.targetQubits except)
    (hcontrols : ∀ q ∈ controls, q ∈ op.controlQubits) :
    OnQubits op.Touches [⟨instruction, controls⟩] := by
  refine OnQubits.singleton fun q hq => ?_
  rcases List.mem_append.mp hq with hq | hq
  · exact touches_of_mem_targetQubits (hinstruction ▸ hq)
  · exact touches_of_mem_controlQubits (hcontrols q hq)

theorem touches_of_onlyQubit {op : Operation} {breach : Nat → Breach} {q : Nat}
    (h : op.onlyQubit breach = .ok q) : op.Touches q := by
  have hmem : q ∈ op.ownQubits := by
    rw [onlyQubit_eq_ok_iff.mp h]
    exact List.mem_singleton_self q
  exact touches_of_mem_targetQubits hmem

/-- **An operation with a class is written on qubits that it touches.** -/
theorem on_classPrimitives {op : Operation} {key : Nat} {cls : GateClass} {ps : List Primitive}
    (h : op.classPrimitives key cls = .ok ps) : OnQubits op.Touches ps := by
  cases writtenAs_of_classPrimitives h with
  | passThrough => exact on_gate rfl fun _ hq => hq
  | canonicalCx => exact on_gate rfl nofun
  | noOp => exact OnQubits.nil
  | clifford =>
    exact OnQubits.cliffordPrimitives (fun _ hq => touches_of_mem_targetQubits hq)
      fun _ hq => touches_of_mem_controlQubits hq
  | @rotation _ r rs _ hacted =>
    have hmem : r ∈ op.actedQubits := by
      rw [hacted]
      exact List.mem_cons_self
    have hr : op.Touches r := touches_of_mem_targetQubits hmem
    refine OnQubits.singleton fun q hq => ?_
    rcases List.mem_append.mp hq with hq | hq
    · exact List.mem_singleton.mp hq ▸ hr
    · exact touches_of_mem_controlQubits hq
  | measurement hq | reset hq =>
    exact OnQubits.singleton fun r hr => List.mem_singleton.mp hr ▸ touches_of_onlyQubit hq

/-- An operation without a class and without calls is written on qubits that it touches. -/
theorem on_childlessPrimitives {op : Operation} {config : Config} {ps : List Primitive}
    (h : op.childlessPrimitives config = .ok ps) : OnQubits op.Touches ps := by
  obtain rfl | hexponential | rfl := childlessPrimitives_cases h
  · exact OnQubits.nil
  · obtain ⟨args, -, hps⟩ := exists_args_of_exponential hexponential
    exact OnQubits.exponentialPrimitives (fun _ hq => touches_of_mem_targetQubits hq) hps
  · exact on_gate rfl fun _ hq => hq

theorem on_leafPrimitives {op : Operation} {config : Config} {key : Nat} {ps : List Primitive}
    (h : op.leafPrimitives config key = .ok ps) : OnQubits op.Touches ps := by
  unfold leafPrimitives at h
  split at h
  · exact on_classPrimitives h
  · exact on_childlessPrimitives h

end Operation

/-- **A script is written on qubits that its leaves touch.** -/
theorem on_script {config : Config} {s : Nat → Prop} : ∀ {ops : List Operation} {key : Nat}
    {ps : List Primitive}, (∀ op ∈ ops, ∀ q, op.Touches q → s q) →
      script config key ops = .ok ps → OnQubits s ps
  | [], _, _, _, h => by
    cases h
    exact OnQubits.nil
  | op :: ops, key, ps, hs, h => by
    have hsplit : script config key ([op] ++ ops) = .ok ps := h
    obtain ⟨qs, rs, hqs, hrs, rfl⟩ := script_append_eq_ok_iff.mp hsplit
    rw [script_singleton] at hqs
    have hfirst : OnQubits s qs := fun p hp q hq =>
      hs op List.mem_cons_self q (Operation.on_leafPrimitives hqs p hp q hq)
    exact hfirst.append (on_script (fun o ho => hs o (List.mem_cons_of_mem _ ho)) hrs)

/-- **A walk that comes to its end is written on qubits that are touched.** -/
theorem mem_qubits_visitAll {config : Config} {ops : List Operation}
    (h : ((Translation.new config).visitAll ops).halt = none) :
    ∀ q ∈ ((Translation.new config).visitAll ops).translation.qubits,
      ∃ op ∈ Operation.preorderAll ops, op.Touches q := by
  have hscript := Translation.script_of_halt h
  intro q hq
  obtain ⟨p, hp, hq⟩ := List.mem_flatMap.mp hq
  have hon : OnQubits (fun q => ∃ op ∈ Operation.preorderAll ops, op.Touches q)
      ((Translation.new config).visitAll ops).translation.primitives :=
    on_script (fun op hop q hq => ⟨op, Operation.leavesAll_subset_preorder ops hop, hq⟩) hscript
  exact hon p hp q hq

/-- **Numbers in strictly increasing order are below their count** exactly if they are the numbers
from zero on without gaps. -/
theorem eq_range_iff {qs : List Nat} (h : qs.Pairwise (· < ·)) :
    qs = List.range qs.length ↔ ∀ q ∈ qs, q < qs.length := by
  constructor
  · intro heq q hq
    rw [heq] at hq
    exact List.mem_range.mp hq
  · intro hlt
    have hsub : qs ⊆ List.range qs.length := fun q hq => List.mem_range.mpr (hlt q hq)
    have hperm : qs.Perm (List.range qs.length) :=
      (List.subperm_of_subset (h.imp Nat.ne_of_lt) hsub).perm_of_length_le
        (Nat.le_of_eq List.length_range)
    exact eq_of_ascending h List.pairwise_lt_range fun q => hperm.mem_iff

theorem translate_eq_ok {path : ExecutionPath} {config : Config} {text : String}
    (h : (translate path config).script = .ok text) :
    ((Translation.new config).visitAll path.operations).halt = none ∧
      text = ((Translation.new config).visitAll path.operations).translation.render
        path.numQubits := by
  unfold translate at h
  simp only at h
  split at h
  · cases h
  · next hhalt =>
    cases h
    exact ⟨hhalt, rfl⟩

/-- The script in the flat layout, if nothing stops the walk. -/
theorem translate_flat {path : ExecutionPath} {config : Config} (hflat : config.dialect = .flat)
    (h : ((Translation.new config).visitAll path.operations).halt = none) :
    let t := ((Translation.new config).visitAll path.operations).translation
    (translate path config).script = .ok (unlines (t.flatPrologue path.numQubits ++
      (moments t.lines).map (renderMoment "circuit"))) := by
  intro t
  have hfollows := Translation.visitAll_follows (Translation.new config) path.operations
  have hscript : script (Translation.new config).config (Translation.new config).measurementKey
      (Operation.leavesAll path.operations) = .ok t.primitives := Translation.script_of_halt h
  rw [hscript] at hfollows
  have hconfig : t.config = config := hfollows.2.1
  have hrender : t.render path.numQubits = t.renderFlat path.numQubits := by
    unfold Translation.render
    rw [hconfig, hflat]
  unfold translate
  simp only [h]
  exact congrArg Except.ok hrender

/-- **A script refers to declared qubits only.** All of them exist in the script if the trace has
numbered its qubits from zero without gaps; and if the script refers to all declared qubits, they
exist only then. -/
theorem translated_qubits_exist (ns : List Notification) (config : Config) (text : String)
    (h : (translate (Tracer.empty.replay ns).executionPath config).script = .ok text) :
    let path := (Tracer.empty.replay ns).executionPath
    let ids := path.qubits.map QubitDeclaration.id
    let t := ((Translation.new config).visitAll path.operations).translation
    text = t.render path.numQubits ∧
      (∀ q ∈ t.qubits, q ∈ ids) ∧
      (ids = List.range path.numQubits → ∀ q ∈ t.qubits, q < path.numQubits) ∧
      (ids ⊆ t.qubits → (∀ q ∈ t.qubits, q < path.numQubits) →
        ids = List.range path.numQubits) := by
  intro path ids t
  obtain ⟨hhalt, htext⟩ := translate_eq_ok h
  have hpath : path.WellFormed := (Tracer.sound_empty.replay ns).path
  have hdeclared : ∀ q ∈ t.qubits, q ∈ ids := by
    intro q hq
    obtain ⟨op, hop, r, hr, rfl⟩ := mem_qubits_visitAll hhalt q hq
    exact (hpath.operations op hop).declared r hr
  have hlength : ids.length = path.numQubits := List.length_map _
  have hascending : ids.Pairwise (· < ·) := List.pairwise_map.mpr hpath.ascending
  have hrange := eq_range_iff hascending
  rw [hlength] at hrange
  exact ⟨htext, hdeclared, fun hids q hq => hrange.mp hids q (hdeclared q hq),
    fun hall hlt => hrange.mpr fun q hq => hlt q (hall hq)⟩

/-- A trace that numbers its three qubits without gaps, though it does not mention them in order. -/
theorem translated_qubits_exist_of_three :
    let path := (Tracer.empty.replay
      [.start (.ok (some (.ofTargets "Main" []))),
        .start (.ok (some (.ofTargets "H" [2]))), .finish,
        .start (.ok (some ((Metadata.ofTargets "X" [0]).withControls [2]))), .finish,
        .start (.ok (some (Metadata.ofTargets "M" [1]).measurement)), .finish,
        .finish]).executionPath
    let t := ((Translation.new .default).visitAll path.operations).translation
    (translate path .default).script = .ok (t.render path.numQubits) ∧
      path.qubits.map QubitDeclaration.id = List.range path.numQubits ∧
      t.qubits = [2, 0, 2, 1] ∧ ∀ q ∈ t.qubits, q < path.numQubits :=
  ⟨rfl, by decide +kernel, by decide +kernel,
    (translated_qubits_exist _ .default _ rfl).2.2.1 (by decide +kernel)⟩

/-- **A script may refer to a qubit that it does not make**: a trace of one qubit with the number 5
is written on `qubits[5]` of a script that makes one qubit. -/
theorem exists_missing_qubit :
    ∃ ns : List Notification,
      ns = [.start (.ok (some (.ofTargets "Main" []))), .start (.ok (some (.ofTargets "H" [5]))),
        .finish, .finish] ∧
      (translate (Tracer.empty.replay ns).executionPath .default).script = .ok (unlines
        ["# Qubits: 1", "", "import cirq", "import numpy as np", "from cirq.ops import H",
          "qubits = cirq.LineQubit.range(1)", "circuit = cirq.Circuit()",
          "circuit.append([H(qubits[5])])"]) ∧
      (Tracer.empty.replay ns).executionPath.numQubits = 1 ∧
      5 ∈ ((Translation.new .default).visitAll
        (Tracer.empty.replay ns).executionPath.operations).translation.qubits :=
  ⟨_, rfl, congrArg (fun lines => Except.ok (unlines lines)) (by decide +kernel),
    by decide +kernel, by decide +kernel⟩

end CircuitTrace
