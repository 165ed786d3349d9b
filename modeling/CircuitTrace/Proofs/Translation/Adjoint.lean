import CircuitTrace.Proofs.Translation.ExponentialCircuit
import CircuitTrace.Proofs.Translation.Leaves
import Mathlib.Tactic.IntervalCases

/-! # Gates that act backwards

An operation that acts backwards is written with the same gates as the one that acts forwards. This
is right exactly for the gates that are their own inverse. Conjugation tells which ones are: a word
of gates on one qubit undoes itself if running it twice leaves every factor as it was
(`undo_gates_iff`), and so does a gate on two qubits if it leaves every pair of factors
(`undo_pair`).

Of the Clifford gates that keep their label, all but `S` are their own inverse. Of the Clifford
elements it depends on the correction: a half turn about an axis between two axes, such as `H`, or a
quarter turn with a flip of its axis in front of it, is one; a turn that moves all three axes in a
circle, as with the indices 3 and 4, never is (`Pauli.isInvolution`, `throughAll_twice_iff`).
`visit_adjoint_undo_iff` says so for operations and `exists_adjoint_not_undone` is the gate `S`. -/

namespace CircuitTrace

/-- The labels of Clifford gates on one qubit. -/
def singleLabels : List String := ["X", "Y", "Z", "H", "S"]

/-- The labels of Clifford gates on two qubits. -/
def pairLabels : List String := ["CZ", "CNOT", "SWAP"]

namespace Pauli

/-! ### Words that undo themselves -/

/-- **The Clifford element is its own inverse**, as far as its action by conjugation goes. -/
def isInvolution (index : Nat) (correction : Pauli) : Bool :=
  match index with
  | 1 => correction = I || correction = Y
  | 2 => correction = X || correction = Y
  | 3 | 4 => false
  | 5 => correction = Y || correction = Z
  | _ => true

theorem forall_iff {p : Pauli → Prop} : (∀ P, p P) ↔ p I ∧ p X ∧ p Z ∧ p Y :=
  ⟨fun h => ⟨h I, h X, h Z, h Y⟩, fun ⟨hI, hX, hZ, hY⟩ P => by cases P <;> assumption⟩

/-- Every Clifford element acts on every factor. -/
theorem exists_throughAll (index : Nat) (correction P : Pauli) :
    ∃ new, P.throughAll (cliffordGates index correction) = some new := by
  rcases index with _ | _ | _ | _ | _ | _ | index <;> cases correction <;> cases P <;>
    exact ⟨_, rfl⟩

/-- **Running a Clifford element twice leaves every factor as it was** exactly if it is its own
inverse. -/
theorem throughAll_twice_iff (index : Nat) (correction : Pauli) :
    (∀ P : Pauli, P.throughAll
        (cliffordGates index correction ++ cliffordGates index correction) = some (false, P)) ↔
      isInvolution index correction = true := by
  have hlow : ∀ index < 6, (∀ P : Pauli, P.throughAll
      (cliffordGates index correction ++ cliffordGates index correction) = some (false, P)) ↔
        isInvolution index correction = true := by
    intro index hindex
    rw [forall_iff]
    interval_cases index <;> cases correction <;> decide
  rcases Nat.lt_or_ge index 6 with hindex | hindex
  · exact hlow index hindex
  · -- all higher indices add no gates, like the index 0
    obtain ⟨n, rfl⟩ := Nat.exists_eq_add_of_le' hindex
    exact hlow 0 (by decide)

theorem exists_throughAll_of_mem {label : String} (h : label ∈ singleLabels) (P : Pauli) :
    ∃ new, P.throughAll [label] = some new := by
  simp only [singleLabels, List.mem_cons, List.not_mem_nil, or_false] at h
  rcases h with rfl | rfl | rfl | rfl | rfl <;> cases P <;> exact ⟨_, rfl⟩

theorem throughAll_label_iff {label : String} (h : label ∈ singleLabels) :
    (∀ P : Pauli, P.throughAll ([label] ++ [label]) = some (false, P)) ↔ label ≠ "S" := by
  rw [forall_iff]
  simp only [singleLabels, List.mem_cons, List.not_mem_nil, or_false] at h
  rcases h with rfl | rfl | rfl | rfl | rfl <;> decide

theorem exists_throughPair_of_mem {label : String} (h : label ∈ pairLabels) (P Q : Pauli) :
    ∃ new, P.throughPair Q label = some new ∧
      new.2.1.throughPair new.2.2 label = some (new.1, P, Q) := by
  simp only [pairLabels, List.mem_cons, List.not_mem_nil, or_false] at h
  rcases h with rfl | rfl | rfl <;> cases P <;> cases Q <;> exact ⟨_, rfl, rfl⟩

end Pauli

namespace SignedPauli

/-- Words of gates on one qubit undo each other exactly if they leave every factor as it was. -/
theorem undo_gates_iff (q : Nat) (symbols symbols' : List String) :
    Undo (symbols.map fun symbol => .gate symbol [q] [])
        (symbols'.map fun symbol => .gate symbol [q] []) ↔
      ∀ P : Pauli, P.throughAll (symbols ++ symbols') = some (false, P) := by
  unfold Undo
  simp only [← List.map_append, conjugateAll_gates]
  constructor
  · intro h P
    obtain ⟨new, hnew, hreplace⟩ := Option.map_eq_some_iff.mp (h ⟨false, fun _ => P⟩)
    have hnegative : new.1 = false := by
      simpa [replace] using congrArg SignedPauli.negative hreplace
    have hfactor : new.2 = P := by
      simpa [replace] using congrFun (congrArg SignedPauli.factor hreplace) q
    rw [hnew, ← hnegative, ← hfactor]
  · intro h s
    rw [h, Option.map_some, replace_self]

/-- **Primitives act** if they turn every operator into an operator. -/
def Acts (ps : List Primitive) : Prop := ∀ s : SignedPauli, ∃ s', s.conjugateAll ps = some s'

/-- What is undone acts. -/
theorem Undo.acts {ps qs : List Primitive} (h : Undo ps qs) : Acts ps := by
  intro s
  have hs := h s
  rw [conjugateAll_append] at hs
  obtain ⟨s', hs', -⟩ := Option.bind_eq_some_iff.mp hs
  exact ⟨s', hs'⟩

theorem acts_gates (q : Nat) {symbols : List String}
    (h : ∀ P : Pauli, ∃ new, P.throughAll symbols = some new) :
    Acts (symbols.map fun symbol => .gate symbol [q] []) := by
  intro s
  obtain ⟨new, hnew⟩ := h (s.factor q)
  exact ⟨_, (conjugateAll_gates q symbols s).trans (by rw [hnew]; rfl)⟩

end SignedPauli

/-! ### Operations -/

/-- The number of qubits that a gate acts on. -/
def gateArity (label : String) : Nat :=
  match label with
  | "CZ" | "CNOT" | "SWAP" => 2
  | "CCNOT" | "CCX" | "CCZ" => 3
  | _ => 1

namespace Operation

/-- **The operation is a Clifford gate**: it has a label that is kept, other than those of the gates
beyond the Clifford group, or it is a Clifford element with arguments that make sense; it has no
controls, and as many qubits as its gate acts on. -/
structure IsCliffordGate (op : Operation) : Prop where
  cls : GateClass.classify op.gate = some .clifford ∨
    GateClass.classify op.gate = some .passThrough ∧ op.gate ∉ ["T", "CCNOT", "CCX", "CCZ"]
  uncontrolled : op.controls = []
  args : GateClass.classify op.gate = some .clifford →
    ∃ args, CliffordArgs.parse op.displayArgs = .ok args
  arity : op.actedQubits.length = gateArity op.gate

/-- **The gate of the operation is its own inverse.** -/
def IsInvolution (op : Operation) : Prop :=
  op.gate ≠ "S" ∧ ∀ args, GateClass.classify op.gate = some .clifford →
    CliffordArgs.parse op.displayArgs = .ok args → Pauli.isInvolution args.index args.pauli = true

/-- The operation with the direction in which it acts turned round. -/
def turned (op : Operation) : Operation := { op with isAdjoint := !op.isAdjoint }

/-- The direction does not matter to what is written. -/
theorem classPrimitives_turned (op : Operation) (key : Nat) (cls : GateClass) :
    op.turned.classPrimitives key cls = op.classPrimitives key cls := by
  cases cls <;> rfl

theorem gate_mem_of_passThrough {label : String}
    (hcls : GateClass.classify label = some .passThrough)
    (hlabel : label ∉ ["T", "CCNOT", "CCX", "CCZ"]) :
    label ∈ singleLabels ∨ label ∈ pairLabels := by
  unfold GateClass.classify at hcls
  split at hcls <;> first | decide | exact absurd (by decide) hlabel | cases hcls

/-- **The gates of a Clifford gate** act on every operator, and they undo themselves exactly if the
gate is its own inverse. -/
theorem IsCliffordGate.exists_classPrimitives {op : Operation} (h : op.IsCliffordGate)
    (key : Nat) :
    ∃ cls ps, GateClass.classify op.gate = some cls ∧ op.classPrimitives key cls = .ok ps ∧
      SignedPauli.Acts ps ∧
      (SignedPauli.Undo ps ps ↔ op.IsInvolution) := by
  have hcontrols : op.controlQubits = [] := by
    unfold controlQubits
    rw [h.uncontrolled]
    rfl
  rcases h.cls with hcls | ⟨hcls, hlabel⟩
  · have hgate : op.gate = "Interface_Clifford" := by
      unfold GateClass.classify at hcls
      split at hcls <;> first | assumption | cases hcls
    obtain ⟨args, hargs⟩ := h.args hcls
    obtain ⟨q, hq⟩ := List.length_eq_one_iff.mp (h.arity.trans (by rw [hgate]; rfl))
    refine ⟨_, cliffordPrimitives args.index args.pauli [q] [], hcls, ?_,
      SignedPauli.acts_gates q (Pauli.exists_throughAll args.index args.pauli), ?_⟩
    · rw [classPrimitives, hargs, hq, hcontrols]
      rfl
    · refine (SignedPauli.undo_gates_iff q _ _).trans ((Pauli.throughAll_twice_iff _ _).trans ?_)
      constructor
      · intro hinvolution
        refine ⟨by rw [hgate]; decide, fun args' _ hargs' => ?_⟩
        rw [hargs] at hargs'
        cases hargs'
        exact hinvolution
      · exact fun hinvolution => hinvolution.2 args hcls hargs
  · have hkept : op.classPrimitives key .passThrough = .ok [.gate op.gate op.actedQubits []] := by
      rw [classPrimitives, hcontrols]
    have hinvolution : op.IsInvolution ↔ op.gate ≠ "S" := by
      refine and_iff_left fun args hclifford => ?_
      rw [hcls] at hclifford
      cases hclifford
    refine ⟨_, _, hcls, hkept, ?_⟩
    rw [hinvolution]
    rcases gate_mem_of_passThrough hcls hlabel with hone | htwo
    · have hlength : ∀ label ∈ singleLabels, gateArity label = 1 := by decide
      obtain ⟨q, hq⟩ := List.length_eq_one_iff.mp (h.arity.trans (hlength _ hone))
      rw [hq]
      exact ⟨SignedPauli.acts_gates q (Pauli.exists_throughAll_of_mem hone),
        (SignedPauli.undo_gates_iff q [op.gate] [op.gate]).trans (Pauli.throughAll_label_iff hone)⟩
    · have hlength : ∀ label ∈ pairLabels, gateArity label = 2 ∧ label ≠ "S" := by decide
      obtain ⟨q, r, hqr⟩ := List.length_eq_two.mp (h.arity.trans (hlength _ htwo).1)
      have hne : q ≠ r := by
        have hnodup : op.actedQubits.Nodup := nodup_firstSeen _
        rw [hqr] at hnodup
        simpa using hnodup
      have hundo := SignedPauli.undo_pair hne (Pauli.exists_throughPair_of_mem htwo)
      rw [hqr]
      exact ⟨hundo.acts, iff_of_true hundo (hlength _ htwo).2⟩

end Operation

namespace Translation

/-- **An operation that acts backwards is written like the one that acts forwards.** Let an
operation be a Clifford gate of its own. Turned round, it leads to the same gates, which act on
every operator, and so the gates of one undo those of the other exactly if the gate is its own
inverse. -/
theorem visit_adjoint_undo_iff {op : Operation} (h : op.IsCliffordGate) (callerDepth : Nat)
    (t : Translation) :
    ∃ ps qs, (visit callerDepth op t).Follows t (.ok ps) ∧
      (visit callerDepth op.turned t).Follows t (.ok qs) ∧
      qs = ps ∧ SignedPauli.Acts ps ∧ (SignedPauli.Undo ps qs ↔ op.IsInvolution) := by
  obtain ⟨cls, ps, hcls, hps, hacts, hundo⟩ := h.exists_classPrimitives t.measurementKey
  have hcls' : GateClass.classify op.turned.gate = some cls := hcls
  have hfollows := visit_follows op callerDepth t
  have hfollows' := visit_follows op.turned callerDepth t
  rw [Operation.leaves_of_classify hcls, script_singleton,
    Operation.leafPrimitives_of_classify hcls, hps] at hfollows
  rw [Operation.leaves_of_classify hcls', script_singleton,
    Operation.leafPrimitives_of_classify hcls', Operation.classPrimitives_turned, hps] at hfollows'
  exact ⟨ps, ps, hfollows, hfollows', rfl, hacts, hundo⟩

/-- The Clifford element of a flip and a quarter turn, which is its own inverse. -/
theorem visit_adjoint_undo_of_quarter_turn :
    let op : Operation := ⟨"Interface_Clifford", some "(2, PauliX)", none, false, false, false, [],
      [.qubit 4]⟩
    op.IsCliffordGate ∧ op.IsInvolution ∧
      ∃ ps qs, (visit 0 op (new .default)).Follows (new .default) (.ok ps) ∧
        (visit 0 op.turned (new .default)).Follows (new .default) (.ok qs) ∧
        qs = ps ∧ SignedPauli.Acts ps ∧ SignedPauli.Undo ps qs := by
  intro op
  have hargs : CliffordArgs.parse op.displayArgs = .ok ⟨2, .X⟩ := by decide +kernel
  have hclifford : op.IsCliffordGate :=
    ⟨Or.inl rfl, rfl, fun _ => ⟨_, hargs⟩, by decide⟩
  have hinvolution : op.IsInvolution := by
    refine ⟨by decide, fun args _ hargs' => ?_⟩
    rw [hargs] at hargs'
    cases hargs'
    rfl
  obtain ⟨ps, qs, hplain, hturned, hsame, hacts, hundo⟩ :=
    visit_adjoint_undo_iff hclifford 0 (new .default)
  exact ⟨hclifford, hinvolution, ps, qs, hplain, hturned, hsame, hacts, hundo.mpr hinvolution⟩

/-- **The gate `S` is not undone by what is written for it backwards**: both are written as `S`, and
twice a quarter turn changes the sign of a flip. -/
theorem exists_adjoint_not_undone :
    ∃ op : Operation, op = ⟨"S", none, none, false, false, false, [], [.qubit 0]⟩ ∧
      op.turned = { op with isAdjoint := true } ∧ op.IsCliffordGate ∧
      (visit 0 op (new .default)).Follows (new .default) (.ok [.gate "S" [0] []]) ∧
      (visit 0 op.turned (new .default)).Follows (new .default) (.ok [.gate "S" [0] []]) ∧
      (SignedPauli.ofFactors [(0, .X)]).conjugateAll [.gate "S" [0] [], .gate "S" [0] []] =
        some { SignedPauli.ofFactors [(0, .X)] with negative := true } ∧
      ¬ SignedPauli.Undo [.gate "S" [0] []] [.gate "S" [0] []] := by
  have hturn : (SignedPauli.ofFactors [(0, .X)]).conjugateAll
      [.gate "S" [0] [], .gate "S" [0] []] =
        some ((SignedPauli.ofFactors [(0, .X)]).replace 0 (true, .X)) :=
    SignedPauli.conjugateAll_gates 0 ["S", "S"] _
  refine ⟨_, rfl, rfl, ⟨Or.inr ⟨rfl, by decide⟩, rfl, fun hclifford => ?_, by decide⟩,
    ⟨rfl, rfl, rfl, rfl⟩, ⟨rfl, rfl, rfl, rfl⟩, ?_, fun hundo => ?_⟩
  · cases hclifford
  · have hself : Function.update (SignedPauli.ofFactors [(0, .X)]).factor 0 .X =
        (SignedPauli.ofFactors [(0, .X)]).factor := Function.update_eq_self 0 _
    rw [hturn]
    simp only [SignedPauli.replace, hself]
    rfl
  · have htwice := (SignedPauli.undo_gates_iff 0 ["S"] ["S"]).mp hundo
    exact (Pauli.throughAll_label_iff (by decide)).mp htwice rfl

end Translation

end CircuitTrace
