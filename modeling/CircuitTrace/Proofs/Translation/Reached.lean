import CircuitTrace.Proofs.Translation.Qubits

/-! # What a strict translation leaves out

Of the operations that a walk reaches its leaves are those that it does not expand. An operation
without a class and without a list of children is a leaf, and a strict walk comes to its end only if
all such leaves are exponentials, which have their rotation written, or markers. But an operation
with a list of children is expanded, and if the list is empty, nothing is left of it: neither an
error, nor a comment, nor a rotation.

So a strict translation that comes to its end has dropped nothing (`Translation.NothingDropped`)
exactly if it has reached no such list, apart from markers
(`strict_translation_drops_nothing_iff`). Captured paths have no empty lists of children;
`exists_dropped` is a path from outside. -/

namespace CircuitTrace

namespace Operation

/-! ### Supported operations -/

/-- **A translation knows what to do** with the operation if it calls nothing. -/
def Supported (op : Operation) : Prop :=
  (GateClass.classify op.gate).isSome = true ∨ op.gate = phaseMarkerLabel ∨
    op.gate = exponentialLabel

instance : DecidablePred Supported := fun op =>
  inferInstanceAs (Decidable ((GateClass.classify op.gate).isSome = true ∨
    op.gate = phaseMarkerLabel ∨ op.gate = exponentialLabel))

/-- **The rotation of an exponential**: about the z axis of the first qubit that takes part, or about
the identity axis if none does. -/
def rotation? (op : Operation) : Option Primitive :=
  match ExponentialArgs.parse op.displayArgs with
  | .error _ => none
  | .ok args =>
    match activeFactors op.ownQubits args.basis, op.ownQubits with
    | (pivot, _) :: _, _ => some ⟨.rotation 'z' (.literal ("-2.0*" ++ args.angle)) pivot, []⟩
    | [], qubit :: _ => some ⟨.rotation 'i' (.literal ("-2.0*" ++ args.angle)) qubit, []⟩
    | [], [] => none

theorem exists_rotation_of_exponential {op : Operation} {ps : List Primitive}
    (h : op.exponential = .ok ps) : ∃ p ∈ ps, op.rotation? = some p := by
  obtain ⟨args, hargs, hps⟩ := exists_args_of_exponential h
  unfold rotation?
  cases isExponential_of_exponentialPrimitives hps with
  | parity _ hactive =>
    simp only [hargs, hactive]
    exact ⟨_, by simp, rfl⟩
  | phase hactive hown =>
    rw [hown] at hactive
    simp only [hargs, hown, hactive]
    exact ⟨_, List.mem_singleton_self _, rfl⟩

/-- A strict walk is not stopped by a leaf only if the leaf is supported. -/
theorem supported_of_leafPrimitives {config : Config} (hstrict : config.strict = true)
    {op : Operation} {key : Nat} {ps : List Primitive}
    (h : op.leafPrimitives config key = .ok ps) : op.Supported := by
  rcases hcls : GateClass.classify op.gate with _ | cls
  · rw [leafPrimitives_of_childless hcls, childlessPrimitives] at h
    split_ifs at h with hmarker hexp
    · exact Or.inr (Or.inl hmarker)
    · exact Or.inr (Or.inr hexp)
  · exact Or.inl (by rw [hcls]; rfl)

theorem exists_rotation_of_leafPrimitives {op : Operation} {config : Config} {key : Nat}
    {ps : List Primitive} (hexp : op.gate = exponentialLabel)
    (h : op.leafPrimitives config key = .ok ps) : ∃ p ∈ ps, op.rotation? = some p := by
  rw [leafPrimitives_of_exponential hexp] at h
  exact exists_rotation_of_exponential h

end Operation

namespace Translation

/-! ### Walks along reached operations -/

/-- The walk along operations that were reached one after the other: the leaves among them are
visited, since the others are expanded into what was reached next. -/
def along (t : Translation) (ops : List Operation) : Walk :=
  visitList 0 (ops.filter Operation.isLeaf) t

theorem primitives_along {config : Config} {ops : List Operation} {ps : List Primitive}
    (h : script config 0 (ops.filter Operation.isLeaf) = .ok ps) :
    ((new config).along ops).translation.primitives = ps := by
  have hleaves : Operation.leavesAll (ops.filter Operation.isLeaf) = ops.filter Operation.isLeaf :=
    Operation.leavesAll_of_isLeaf fun op hop => (List.mem_filter.mp hop).2
  have hfollows := visitList_follows (ops.filter Operation.isLeaf) 0 (new config)
  rw [hleaves] at hfollows
  have hscript : script (new config).config (new config).measurementKey
      (ops.filter Operation.isLeaf) = .ok ps := h
  rw [hscript] at hfollows
  exact hfollows.2.2.1

/-- **An operation contributes a primitive** to the translation of a path: the primitive is among
those that are written when the walk comes to the operation behind those it reached before. -/
def Contributes (config : Config) (ops before : List Operation) (op : Operation) (p : Primitive) :
    Prop :=
  ∃ block rest,
    ((new config).along (before ++ [op])).translation.primitives =
      ((new config).along before).translation.primitives ++ block ∧
    ((new config).visitAll ops).translation.primitives =
      ((new config).along before).translation.primitives ++ block ++ rest ∧
    p ∈ block

/-- **A translation drops nothing**: every operation that it reaches and that calls nothing is
supported, and if it is an exponential it contributes its rotation. -/
structure NothingDropped (config : Config) (ops : List Operation) : Prop where
  supported : ∀ op ∈ Operation.reachedAll ops, op.calls = [] → op.Supported
  rotated : ∀ before op after, Operation.reachedAll ops = before ++ op :: after →
    op.calls = [] → op.gate = exponentialLabel →
    ∃ p, op.rotation? = some p ∧ Contributes config ops before op p

end Translation

/-- What a script that comes to its end has made of one of its leaves. -/
theorem exists_leafPrimitives_of_script {config : Config} {key : Nat} {ps : List Primitive}
    {before after : List Operation} {op : Operation}
    (h : script config key (before ++ op :: after) = .ok ps) :
    ∃ qs block rest, script config key before = .ok qs ∧
      op.leafPrimitives config (keyAfter key qs) = .ok block ∧ ps = qs ++ block ++ rest := by
  obtain ⟨qs, rs, hqs, hrs, rfl⟩ := script_append_eq_ok_iff.mp h
  have hsplit : script config (keyAfter key qs) ([op] ++ after) = .ok rs := hrs
  obtain ⟨block, rest, hblock, -, rfl⟩ := script_append_eq_ok_iff.mp hsplit
  rw [script_singleton] at hblock
  exact ⟨qs, block, rest, hqs, hblock, (List.append_assoc _ _ _).symm⟩

namespace Translation

variable {config : Config} {ops : List Operation}

/-- **A leaf contributes its primitives and no others**, if the walk comes to its end. -/
theorem exists_block_of_leaf (h : ((new config).visitAll ops).halt = none)
    {before after : List Operation} {op : Operation}
    (hreached : Operation.reachedAll ops = before ++ op :: after) (hleaf : op.isLeaf = true) :
    ∃ key block, op.leafPrimitives config key = .ok block ∧
      ∀ p, Contributes config ops before op p ↔ p ∈ block := by
  have hscript := script_of_halt h
  rw [Operation.leavesAll_eq_filter, hreached, List.filter_append,
    List.filter_cons_of_pos hleaf] at hscript
  obtain ⟨qs, block, rest, hqs, hblock, hall⟩ := exists_leafPrimitives_of_script hscript
  have hnext : ((new config).along (before ++ [op])).translation.primitives = qs ++ block := by
    refine primitives_along ?_
    rw [List.filter_append, List.filter_cons_of_pos hleaf, List.filter_nil]
    refine script_append_eq_ok_iff.mpr ⟨qs, block, hqs, ?_, rfl⟩
    rw [script_singleton]
    exact hblock
  refine ⟨_, block, hblock, fun p => ?_⟩
  unfold Contributes
  rw [hnext, primitives_along hqs]
  constructor
  · rintro ⟨block', rest', hblock', -, hp⟩
    rw [List.append_cancel_left hblock']
    exact hp
  · exact fun hp => ⟨block, rest, rfl, hall, hp⟩

/-- An operation that is expanded contributes nothing itself. -/
theorem not_contributes_of_not_isLeaf {before : List Operation} {op : Operation}
    (h : op.isLeaf = false) (p : Primitive) : ¬ Contributes config ops before op p := by
  rintro ⟨block, rest, hblock, -, hp⟩
  have hsame : (before ++ [op]).filter Operation.isLeaf = before.filter Operation.isLeaf := by
    rw [List.filter_append, List.filter_cons_of_neg (by simp [h]), List.filter_nil,
      List.append_nil]
  unfold along at hblock
  rw [hsame] at hblock
  rw [List.self_eq_append_right.mp hblock] at hp
  cases hp

/-- **A strict walk that comes to its end has dropped nothing** exactly if it has reached no empty
list of children, except that of a marker. -/
theorem nothingDropped_iff (hstrict : config.strict = true)
    (h : ((new config).visitAll ops).halt = none) :
    NothingDropped config ops ↔
      ∀ op ∈ Operation.reachedAll ops, GateClass.classify op.gate = none →
        op.gate ≠ phaseMarkerLabel → op.children ≠ some [] := by
  constructor
  · intro hdropped op hop hcls hmarker hempty
    have hcalls : op.calls = [] := by unfold Operation.calls; rw [hempty]; rfl
    have hnot : op.isLeaf = false := by simp [Operation.isLeaf, hcls, hempty]
    rcases hdropped.supported op hop hcalls with hclass | hgate | hexp
    · rw [hcls] at hclass
      cases hclass
    · exact hmarker hgate
    · obtain ⟨before, after, hsplit⟩ := List.append_of_mem hop
      obtain ⟨p, -, hp⟩ := hdropped.rotated before op after hsplit hcalls hexp
      exact not_contributes_of_not_isLeaf hnot p hp
  · intro hempty
    -- an operation that calls nothing is a leaf, unless it is a marker
    have hleaf : ∀ op ∈ Operation.reachedAll ops, op.calls = [] → op.gate ≠ phaseMarkerLabel →
        op.isLeaf = true := by
      intro op hop hcalls hmarker
      have hne := hempty op hop
      rcases hcls : GateClass.classify op.gate with _ | cls
      · rcases hchildren : op.children with _ | children
        · simp [Operation.isLeaf, hchildren]
        · have hnil : children = [] := by simpa [Operation.calls, hchildren] using hcalls
          exact absurd (hnil ▸ hchildren) (hne hcls hmarker)
      · simp [Operation.isLeaf, hcls]
    refine ⟨fun op hop hcalls => ?_, fun before op after hsplit hcalls hexp => ?_⟩
    · by_cases hmarker : op.gate = phaseMarkerLabel
      · exact Or.inr (Or.inl hmarker)
      · obtain ⟨before, after, hsplit⟩ := List.append_of_mem hop
        obtain ⟨key, block, hblock, -⟩ :=
          exists_block_of_leaf h hsplit (hleaf op hop hcalls hmarker)
        exact Operation.supported_of_leafPrimitives hstrict hblock
    · have hop : op ∈ Operation.reachedAll ops := by rw [hsplit]; simp
      have hmarker : op.gate ≠ phaseMarkerLabel := by rw [hexp]; decide
      obtain ⟨key, block, hblock, hcontributes⟩ :=
        exists_block_of_leaf h hsplit (hleaf op hop hcalls hmarker)
      obtain ⟨p, hp, hrotation⟩ := Operation.exists_rotation_of_leafPrimitives hexp hblock
      exact ⟨p, hrotation, (hcontributes p).mpr hp⟩

end Translation

/-- **A strict translation that comes to its end has dropped nothing** exactly if it has reached no
operation with an empty list of children other than a marker. A captured path has none. -/
theorem strict_translation_drops_nothing_iff {path : ExecutionPath} {config : Config}
    {text : String} (hstrict : config.strict = true)
    (h : (translate path config).script = .ok text) :
    (Translation.NothingDropped config path.operations ↔
      ∀ op ∈ Operation.reachedAll path.operations, GateClass.classify op.gate = none →
        op.gate ≠ phaseMarkerLabel → op.children ≠ some []) ∧
    (∀ ns : List Notification, path = (Tracer.empty.replay ns).executionPath →
      Translation.NothingDropped config path.operations) := by
  obtain ⟨hhalt, -⟩ := translate_eq_ok h
  have hiff := Translation.nothingDropped_iff hstrict hhalt
  refine ⟨hiff, fun ns hpath => hiff.mpr fun op hop _ _ => ?_⟩
  have hwell : path.WellFormed := hpath ▸ (Tracer.sound_empty.replay ns).path
  exact (hwell.operations op (Operation.reachedAll_subset_preorder _ hop)).children_ne

private def strictly : Config := { Config.default with strict := true }

/-- A path from outside that drops nothing: under a caller an exponential, and a measurement with
an empty list of children. -/
theorem strict_translation_drops_nothing_of_three :
    let path : ExecutionPath := ⟨[⟨0, 1⟩, ⟨1, 0⟩], [{ Operation.ofGate "Main" with
      children := some [
        { Operation.ofGate "Exp" with
          displayArgs := some "([PauliX, PauliI], 0.5)", targets := [.qubit 0, .qubit 1] },
        { Operation.ofGate "M" with
          isMeasurement := true, children := some [], controls := [.qubit 0],
          targets := [.classical 0 0] }] }]⟩
    (∃ text, (translate path strictly).script = .ok text) ∧
      Translation.NothingDropped strictly path.operations := by
  intro path
  have hok : ((Translation.new strictly).visitAll path.operations).halt = none := by
    decide +kernel
  obtain ⟨text, htext⟩ : ∃ text, (translate path strictly).script = .ok text := by
    unfold translate
    simp only [hok]
    exact ⟨_, rfl⟩
  refine ⟨⟨text, htext⟩, (strict_translation_drops_nothing_iff rfl htext).1.mpr ?_⟩
  decide +kernel

/-- **A strict translation may drop an operation**: one that is not supported and comes with an
empty list of children leaves a script without instructions behind. -/
theorem exists_dropped :
    ∃ (path : ExecutionPath) (config : Config),
      path = ⟨[⟨0, 0⟩],
        [{ Operation.ofGate "Foo" with children := some [], targets := [.qubit 0] }]⟩ ∧
      config.strict = true ∧
      (translate path config).script = .ok (unlines ["# Qubits: 1", "", "import cirq",
        "import numpy as np", "qubits = cirq.LineQubit.range(1)", "circuit = cirq.Circuit()"]) ∧
      (∀ op ∈ path.operations, op.calls = [] ∧ ¬ op.Supported) ∧
      ¬ Translation.NothingDropped config path.operations := by
  refine ⟨_, strictly, rfl, rfl, ?_, by decide +kernel, fun hdropped => ?_⟩
  · exact congrArg (fun lines => Except.ok (unlines lines)) (by decide +kernel)
  · have hsupported := hdropped.supported _ List.mem_cons_self rfl
    exact absurd hsupported (by decide +kernel)

end CircuitTrace
