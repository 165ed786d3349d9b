import CircuitTrace.Proofs.Trace.Orderly
import CircuitTrace.Proofs.Translation.Body
import CircuitTrace.Proofs.Translation.WrittenAs

/-! # Handled primitives

Only an operation without a class and without calls can be *unhandled*, and a script says so in a
comment. All the other primitives of a script are `handled`. Unhandled operations are no
measurements, so leaving them out does not move the key of the next measurement
(`keyAfter_handled`).

What an operation with a class is written as does not depend on its calls if it covers what starts
in them (`exists_results_of_class`): all they bring to it are qubits that it has already. -/

namespace CircuitTrace

/-- The primitive is the comment of an unhandled operation. -/
def Primitive.isUnhandled (p : Primitive) : Bool :=
  match p.instruction with
  | .unhandled _ _ => true
  | _ => false

/-- **The primitives other than the comments of unhandled operations.** -/
def handled (ps : List Primitive) : List Primitive := ps.filter fun p => !p.isUnhandled

@[simp] theorem handled_append (ps qs : List Primitive) :
    handled (ps ++ qs) = handled ps ++ handled qs :=
  List.filter_append _ _

theorem handled_eq_self {ps : List Primitive} (h : ∀ p ∈ ps, p.isUnhandled = false) :
    handled ps = ps := by
  unfold handled
  rw [List.filter_eq_self]
  intro p hp
  rw [h p hp]
  rfl

theorem keyAfter_handled : ∀ (ps : List Primitive) (key : Nat),
    keyAfter key (handled ps) = keyAfter key ps
  | [], _ => rfl
  | p :: ps, key => by
    have hcons : keyAfter key (p :: ps) =
        keyAfter (Translation.nextKey key p.instruction) ps := rfl
    unfold handled
    rcases hp : p.isUnhandled with _ | _
    · rw [List.filter_cons_of_pos (by simp [hp])]
      exact keyAfter_handled ps _
    · rw [List.filter_cons_of_neg (by simp [hp]), hcons]
      obtain ⟨instruction, controls⟩ := p
      cases instruction with
      | unhandled label qubits => exact keyAfter_handled ps key
      | gate symbol qubits => cases hp
      | rotation axis angle qubit => cases hp
      | measure qubit key => cases hp

/-! ### Primitives of operations -/

theorem isUnhandled_cliffordPrimitives {index : Nat} {correction : Pauli}
    {qubits controls : List Nat} :
    ∀ p ∈ cliffordPrimitives index correction qubits controls, p.isUnhandled = false := by
  intro p hp
  obtain ⟨symbol, -, rfl⟩ := List.mem_map.mp hp
  rfl

namespace Operation

/-- An operation with a class is handled. -/
theorem isUnhandled_classPrimitives {op : Operation} {key : Nat} {cls : GateClass}
    {ps : List Primitive} (h : op.classPrimitives key cls = .ok ps) :
    ∀ p ∈ ps, p.isUnhandled = false := by
  cases writtenAs_of_classPrimitives h with
  | clifford => exact isUnhandled_cliffordPrimitives
  | noOp => exact List.forall_mem_nil _
  | passThrough | canonicalCx | rotation | measurement | reset =>
    exact List.forall_mem_singleton.mpr rfl

/-- An exponential without calls is handled. -/
theorem isUnhandled_exponential {op : Operation} {ps : List Primitive}
    (h : op.exponential = .ok ps) : ∀ p ∈ ps, p.isUnhandled = false := by
  obtain ⟨args, -, hps⟩ := exists_args_of_exponential h
  intro p hp
  cases isExponentialGate_of_mem hps p hp with
  | basis | flip | rotation | phase => rfl

/-- Without a class and calls, only an exponential is handled. -/
theorem handled_childlessPrimitives {op : Operation} {config : Config} {ps : List Primitive}
    (h : op.childlessPrimitives config = .ok ps) (hgate : op.gate ≠ exponentialLabel) :
    handled ps = [] := by
  unfold childlessPrimitives at h
  rw [if_neg hgate] at h
  split_ifs at h <;> cases h <;> rfl

/-! ### Bodies of operations with a class -/

theorem Covers.overlooks {p op : Operation} {cls : GateClass} (h : p.Covers cls op) {q : Nat}
    (hq : .qubit q ∈ op.targets) : p.Overlooks q cls := by
  have hcontrols : .qubit q ∈ p.controls → q ∈ p.controlQubits := fun hc =>
    mem_firstSeen.mpr (List.mem_map.mpr ⟨_, hc, rfl⟩)
  rcases h (.qubit q) hq rfl with ht | ⟨hm, hr, hc⟩
  · have hown := qubit_mem_targetQubits ht
    cases cls with
    | noOp => trivial
    | measurement | reset => exact hown
    | passThrough | canonicalCx => exact Or.inl hown
    | clifford | rotation => exact Or.inl (Or.inl hown)
  · cases cls with
    | noOp => trivial
    | measurement => exact absurd rfl hm
    | reset => exact absurd rfl hr
    | passThrough | canonicalCx => exact Or.inr (hcontrols hc)
    | clifford | rotation => exact Or.inl (Or.inr (hcontrols hc))

end Operation

namespace CallTree

/-- **An operation with a class is written in the same way** before and after it has taken in calls
that it covers. -/
theorem exists_results_of_class {cls : GateClass} {depth : Nat} : ∀ {cs : List CallTree}
    {p : Operation} {a : Allocator},
    (∀ op d, .started op d ∈ callsAll depth (some p) a cs → p.Covers cls op) →
      ∃ p', (results (some p) a cs).1 = some p' ∧ p'.gate = p.gate ∧
        ∀ key, p'.classPrimitives key cls = p.classPrimitives key cls
  | [], p, _, _ => ⟨p, rfl, rfl, fun _ => rfl⟩
  | c :: cs, p, a, h => by
    simp only [callsAll, List.mem_append] at h
    obtain ⟨p₁, hattach, hp₁⟩ := Tracer.exists_attach p (c.result (some p) a).1
    rw [results, hattach]
    rw [hattach] at h
    rcases hp₁ with rfl | ⟨call, hcall, rfl⟩
    · exact exists_results_of_class fun op d hop => h op d (Or.inr hop)
    · have hcovers : p.Covers cls call := covers_result (fun op d hop => h op d (Or.inl hop)) hcall
      obtain ⟨p', hp', hgate, hprimitives⟩ := exists_results_of_class (p := p.adopt call)
        fun op d hop => (h op d (Or.inr hop)).adopt_left call
      refine ⟨p', hp', hgate, fun key => (hprimitives key).trans ?_⟩
      exact (Operation.classPrimitives_adopt_eq_iff cls).mpr fun q hq => hcovers.overlooks hq

end CallTree

end CircuitTrace
