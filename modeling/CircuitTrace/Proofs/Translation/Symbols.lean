import CircuitTrace.Proofs.Translation.Frontier
import CircuitTrace.Proofs.Translation.Qubits

/-! # The symbols of a script

A script imports the symbols of its lines, each once and in the order of their first use
(`gatesUsed_performAll`). Most of them are fixed by the table of gate classes and by the words of
the Clifford elements. A rotation is the exception: its symbol is made of the letter of the axis
that its arguments name, whatever letter this is, and its angle is what the arguments say, even if
they say nothing but blanks (`regular_rotation_iff`).

So a script is written in primitive gates, with an angle on every rotation, exactly if the arguments
of all rotations that are reached are meaningful (`translated_regular_iff`). `exists_irregular` is a
path with two rotations that are not. -/

namespace CircuitTrace

/-- **The symbols of the primitive gates.** -/
def primitiveSymbols : List String :=
  ["X", "Y", "Z", "H", "S", "T", "CZ", "CNOT", "SWAP", "CCNOT", "CCX", "CCZ", "CX", "rx", "ry",
    "rz", "measure", "reset"]

/-- The expression of the angle is made of blanks alone. -/
def Angle.isBlank (angle : Angle) : Bool := angle.render.toList.all Text.isBlank

/-- **An instruction is regular** if its symbol is that of a primitive gate and, unless it is a
comment, a rotation is about one of the axes by an angle that is not blank. -/
structure Instruction.Regular (i : Instruction) : Prop where
  symbol : ∀ s, i.symbol? = some s → s ∈ primitiveSymbols
  rotation : ∀ axis angle q, i = .rotation axis angle q → i.isComment = false →
    axis ∈ ['x', 'y', 'z'] ∧ angle.isBlank = false

/-- **The arguments of a rotation are meaningful** if they name the identity, or one of the axes and
an angle that is not blank. -/
def RotationArgs.Meaningful (args : RotationArgs) : Prop :=
  args.axis = 'i' ∨ args.axis ∈ ['x', 'y', 'z'] ∧ args.angle.isBlank = false

instance : DecidablePred RotationArgs.Meaningful := fun args =>
  inferInstanceAs
    (Decidable (args.axis = 'i' ∨ args.axis ∈ ['x', 'y', 'z'] ∧ args.angle.isBlank = false))

/-! ### Instructions -/

namespace Instruction

theorem regular_gate_iff {symbol : String} {qubits : List Nat} :
    (gate symbol qubits).Regular ↔ symbol ∈ primitiveSymbols := by
  constructor
  · exact fun h => h.symbol symbol rfl
  · intro h
    refine ⟨fun s hs => ?_, fun axis angle q he => by cases he⟩
    cases hs
    exact h

theorem regular_measure (qubit key : Nat) : (measure qubit key).Regular := by
  refine ⟨fun s hs => ?_, fun axis angle q he => by cases he⟩
  cases hs
  decide

theorem regular_unhandled (label : String) (qubits : List Nat) :
    (unhandled label qubits).Regular := by
  refine ⟨fun s hs => ?_, fun axis angle q he => by cases he⟩
  cases hs

/-- **A rotation is regular exactly if its arguments are meaningful.** -/
theorem regular_rotation_iff {axis : Char} {angle : Angle} {q : Nat} :
    (rotation axis angle q).Regular ↔ (RotationArgs.mk axis angle).Meaningful := by
  by_cases hi : axis = 'i'
  · subst hi
    refine ⟨fun _ => Or.inl rfl, fun _ => ⟨fun s hs => ?_, fun _ _ _ _ hc => ?_⟩⟩
    · simp [symbol?] at hs
    · simp [isComment, symbol?] at hc
  · have hsymbol : (rotation axis angle q).symbol? = some ("r" ++ String.singleton axis) := by
      simp [symbol?, hi]
    constructor
    · intro h
      exact Or.inr (h.rotation axis angle q rfl (by simp [isComment, hsymbol]))
    · rintro (h | ⟨haxis, hangle⟩)
      · exact absurd h hi
      · refine ⟨fun s hs => ?_, fun _ _ _ he _ => ?_⟩
        · rw [hsymbol] at hs
          cases hs
          simp only [List.mem_cons, List.not_mem_nil, or_false] at haxis
          rcases haxis with rfl | rfl | rfl <;> decide
        · cases he
          exact ⟨haxis, hangle⟩

end Instruction

theorem mem_primitiveSymbols_of_mem_cliffordGates {index : Nat} {correction : Pauli}
    {symbol : String} (h : symbol ∈ cliffordGates index correction) :
    symbol ∈ primitiveSymbols := by
  have hword : ∀ s ∈ cliffordWord index, s ∈ primitiveSymbols := by
    intro s hs
    unfold cliffordWord at hs
    split at hs <;> simp only [List.mem_cons, List.not_mem_nil, or_false] at hs <;>
      rcases hs with rfl | rfl | rfl <;> decide
  have hcorrection : ∀ s ∈ correctionGates correction, s ∈ primitiveSymbols := by
    cases correction <;> decide
  exact (List.mem_append.mp h).elim (hcorrection symbol) (hword symbol)

/-- All primitives have regular instructions. -/
def AllRegular (ps : List Primitive) : Prop := ∀ p ∈ ps, p.instruction.Regular

namespace AllRegular

theorem nil : AllRegular [] := fun _ h => absurd h List.not_mem_nil

theorem append_iff {ps qs : List Primitive} :
    AllRegular (ps ++ qs) ↔ AllRegular ps ∧ AllRegular qs := by
  unfold AllRegular
  simp only [List.mem_append, or_imp, forall_and]

theorem singleton_iff {p : Primitive} : AllRegular [p] ↔ p.instruction.Regular := by
  simp [AllRegular]

theorem cliffordPrimitives (index : Nat) (correction : Pauli) (qubits controls : List Nat) :
    AllRegular (cliffordPrimitives index correction qubits controls) := by
  intro p hp
  obtain ⟨symbol, hsymbol, rfl⟩ := List.mem_map.mp hp
  exact Instruction.regular_gate_iff.mpr (mem_primitiveSymbols_of_mem_cliffordGates hsymbol)

/-- The angle of an exponential has a factor in front, so it is not blank. -/
theorem exponentialPrimitives {qubits : List Nat} {args : ExponentialArgs} {ps : List Primitive}
    (h : exponentialPrimitives qubits args = .ok ps) : AllRegular ps := by
  have hangle : (Angle.literal ("-2.0*" ++ args.angle)).isBlank = false := by
    have hhead : Text.isBlank '-' = false := by decide
    simp [Angle.isBlank, Angle.render, hhead]
  intro p hp
  cases isExponentialGate_of_mem h p hp with
  | basis _ hsymbol =>
    exact Instruction.regular_gate_iff.mpr (mem_primitiveSymbols_of_mem_cliffordGates hsymbol)
  | flip => exact Instruction.regular_gate_iff.mpr (by decide)
  | rotation => exact Instruction.regular_rotation_iff.mpr (Or.inr ⟨by simp, hangle⟩)
  | phase => exact Instruction.regular_rotation_iff.mpr (Or.inl rfl)

end AllRegular

/-! ### Operations -/

namespace GateClass

theorem mem_primitiveSymbols_of_passThrough {label : String}
    (h : classify label = some .passThrough) : label ∈ primitiveSymbols := by
  unfold classify at h
  split at h <;> first | decide | cases h

end GateClass

namespace Operation

/-- **The arguments of an operation are meaningful** unless it is a rotation with others. -/
def HasMeaning (op : Operation) : Prop :=
  GateClass.classify op.gate = some .rotation →
    ∃ args, RotationArgs.parse op.displayArgs = .ok args ∧ args.Meaningful

instance : DecidablePred HasMeaning := fun op =>
  match hargs : RotationArgs.parse op.displayArgs with
  | .error e => decidable_of_iff (GateClass.classify op.gate ≠ some .rotation)
      (by unfold HasMeaning; rw [hargs]; simp)
  | .ok args => decidable_of_iff (GateClass.classify op.gate = some .rotation → args.Meaningful)
      (by unfold HasMeaning; rw [hargs]; simp)

/-- **The primitives of a class are regular**, except for rotations without meaning. -/
theorem regular_classPrimitives_iff {op : Operation} {key : Nat} {cls : GateClass}
    {ps : List Primitive} (hcls : GateClass.classify op.gate = some cls)
    (h : op.classPrimitives key cls = .ok ps) : AllRegular ps ↔ op.HasMeaning := by
  have hother : cls ≠ .rotation → op.HasMeaning := by
    intro hne hrotation
    rw [hcls] at hrotation
    exact absurd (Option.some.inj hrotation) hne
  cases writtenAs_of_classPrimitives h with
  | passThrough =>
    refine iff_of_true (AllRegular.singleton_iff.mpr ?_) (hother (by decide))
    exact Instruction.regular_gate_iff.mpr (GateClass.mem_primitiveSymbols_of_passThrough hcls)
  | canonicalCx | reset =>
    refine iff_of_true (AllRegular.singleton_iff.mpr ?_) (hother (by decide))
    exact Instruction.regular_gate_iff.mpr (by decide)
  | noOp => exact iff_of_true AllRegular.nil (hother (by decide))
  | clifford => exact iff_of_true (AllRegular.cliffordPrimitives _ _ _ _) (hother (by decide))
  | @rotation args _ _ hargs =>
    rw [AllRegular.singleton_iff, Instruction.regular_rotation_iff]
    constructor
    · exact fun hmeaning _ => ⟨args, hargs, hmeaning⟩
    · intro hmeaning
      obtain ⟨args', hargs', hmeaning'⟩ := hmeaning hcls
      rw [hargs] at hargs'
      cases hargs'
      exact hmeaning'
  | @measurement q =>
    refine iff_of_true (AllRegular.singleton_iff.mpr ?_) (hother (by decide))
    exact Instruction.regular_measure q key

theorem regular_childlessPrimitives {op : Operation} {config : Config} {ps : List Primitive}
    (h : op.childlessPrimitives config = .ok ps) : AllRegular ps := by
  obtain rfl | hexponential | rfl := childlessPrimitives_cases h
  · exact AllRegular.nil
  · obtain ⟨args, -, hps⟩ := exists_args_of_exponential hexponential
    exact AllRegular.exponentialPrimitives hps
  · exact AllRegular.singleton_iff.mpr (Instruction.regular_unhandled _ _)

theorem regular_leafPrimitives_iff {op : Operation} {config : Config} {key : Nat}
    {ps : List Primitive} (h : op.leafPrimitives config key = .ok ps) :
    AllRegular ps ↔ op.HasMeaning := by
  unfold leafPrimitives at h
  rcases hcls : GateClass.classify op.gate with _ | cls <;> rw [hcls] at h
  · have hmeaning : op.HasMeaning := fun hrotation => by rw [hcls] at hrotation; cases hrotation
    exact iff_of_true (regular_childlessPrimitives h) hmeaning
  · exact regular_classPrimitives_iff hcls h

end Operation

/-- **A script is regular** exactly if all of its leaves are meaningful. -/
theorem regular_script_iff {config : Config} : ∀ {ops : List Operation} {key : Nat}
    {ps : List Primitive}, script config key ops = .ok ps →
      (AllRegular ps ↔ ∀ op ∈ ops, op.HasMeaning)
  | [], _, _, h => by
    cases h
    exact iff_of_true AllRegular.nil (by simp)
  | op :: ops, key, ps, h => by
    have hsplit : script config key ([op] ++ ops) = .ok ps := h
    obtain ⟨qs, rs, hqs, hrs, rfl⟩ := script_append_eq_ok_iff.mp hsplit
    rw [script_singleton] at hqs
    rw [AllRegular.append_iff, Operation.regular_leafPrimitives_iff hqs, regular_script_iff hrs,
      List.forall_mem_cons]

/-! ### Imports -/

/-- The texts of a list without repetition, each where it stands first. -/
def firstNoted (ss : List String) : List String := ss.foldl noteOnce []

theorem mem_noteOnce {s r : String} {seen : List String} :
    s ∈ noteOnce seen r ↔ s ∈ seen ∨ s = r := by
  unfold noteOnce
  split_ifs with h
  · rw [List.contains_iff_mem] at h
    exact ⟨Or.inl, fun hs => hs.elim id fun he => he ▸ h⟩
  · simp

theorem mem_foldl_noteOnce {s : String} {ss seen : List String} :
    s ∈ ss.foldl noteOnce seen ↔ s ∈ seen ∨ s ∈ ss := by
  induction ss generalizing seen with
  | nil => simp
  | cons r ss ih => rw [List.foldl_cons, ih, mem_noteOnce, List.mem_cons, or_assoc]

theorem mem_firstNoted {s : String} {ss : List String} : s ∈ firstNoted ss ↔ s ∈ ss := by
  unfold firstNoted
  rw [mem_foldl_noteOnce]
  simp

namespace Translation

/-- The symbols of the lines, in order. -/
def symbols (t : Translation) : List String :=
  t.primitives.filterMap fun p => p.instruction.symbol?

theorem stable_gatesUsed : Stable fun t => t.gatesUsed = firstNoted t.symbols := by
  refine Stable.of_write (fun _ h => h) (fun t p h => ?_) fun _ _ h => h
  rw [gatesUsed_write, h]
  unfold firstNoted symbols
  rw [primitives_write, List.filterMap_append, List.foldl_append]
  cases hsymbol : p.instruction.symbol? <;> simp [hsymbol]

/-- **A script imports the symbols of its lines**, each once and in the order of their first use. -/
theorem gatesUsed_performAll (config : Config) (tasks : List Task) :
    ((new config).performAll tasks).gatesUsed =
      firstNoted ((new config).performAll tasks).symbols :=
  stable_gatesUsed.performAll tasks rfl

/-- What is written is regular exactly if the imports and the rotations are. -/
theorem allRegular_iff {t : Translation} (h : t.gatesUsed = firstNoted t.symbols) :
    AllRegular t.primitives ↔
      (∀ s ∈ t.gatesUsed, s ∈ primitiveSymbols) ∧
        ∀ l ∈ t.lines, ∀ axis angle q, l.primitive.instruction = .rotation axis angle q →
          l.isComment = false → axis ∈ ['x', 'y', 'z'] ∧ angle.isBlank = false := by
  have hused : ∀ s, s ∈ t.gatesUsed ↔ ∃ p ∈ t.primitives, p.instruction.symbol? = some s := by
    intro s
    rw [h, mem_firstNoted]
    exact List.mem_filterMap
  constructor
  · intro hregular
    refine ⟨fun s hs => ?_, fun l hl => ?_⟩
    · obtain ⟨p, hp, hsymbol⟩ := (hused s).mp hs
      exact (hregular p hp).symbol s hsymbol
    · exact (hregular l.primitive (List.mem_map_of_mem hl)).rotation
  · rintro ⟨hsymbols, hrotations⟩ p hp
    obtain ⟨l, hl, rfl⟩ := List.mem_map.mp hp
    exact ⟨fun s hs => hsymbols s ((hused s).mpr ⟨l.primitive, hp, hs⟩), hrotations l hl⟩

end Translation

/-- **A script is written in primitive gates**, with an axis and an angle for every rotation that is
not a comment, exactly if the arguments of all rotations that the translation reaches are
meaningful. -/
theorem translated_regular_iff {path : ExecutionPath} {config : Config} {text : String}
    (h : (translate path config).script = .ok text) :
    let t := ((Translation.new config).visitAll path.operations).translation
    text = t.render path.numQubits ∧
      (((∀ s ∈ t.gatesUsed, s ∈ primitiveSymbols) ∧
        ∀ l ∈ t.lines, ∀ axis angle q, l.primitive.instruction = .rotation axis angle q →
          l.isComment = false → axis ∈ ['x', 'y', 'z'] ∧ angle.isBlank = false) ↔
        ∀ op ∈ Operation.leavesAll path.operations, op.HasMeaning) := by
  intro t
  obtain ⟨hhalt, htext⟩ := translate_eq_ok h
  have hused : t.gatesUsed = firstNoted t.symbols :=
    Translation.gatesUsed_performAll config [.visitAll path.operations]
  refine ⟨htext, ?_⟩
  rw [← Translation.allRegular_iff hused]
  exact regular_script_iff (Translation.script_of_halt hhalt)

/-- A path with rotations about an axis, by a dyadic angle and about the identity, and with a
Clifford element, an exponential, a measurement and an operation that is not supported. -/
theorem translated_regular_of_seven :
    let path : ExecutionPath := ⟨[⟨0, 1⟩, ⟨1, 0⟩], [{ Operation.ofGate "Main" with
      children := some [
        { Operation.ofGate "R" with
          displayArgs := some "(PauliX, 0.5)", targets := [.qubit 0] },
        { Operation.ofGate "Interface_RFrac" with
          displayArgs := some "(PauliY, 1, 2)", targets := [.qubit 1] },
        { Operation.ofGate "R" with
          displayArgs := some "(PauliI, )", targets := [.qubit 1] },
        { Operation.ofGate "Interface_Clifford" with
          displayArgs := some "(5, PauliY)", targets := [.qubit 0] },
        { Operation.ofGate "Exp" with
          displayArgs := some "([PauliX, PauliZ], 0.4)", targets := [.qubit 0, .qubit 1] },
        { Operation.ofGate "M" with
          isMeasurement := true, controls := [.qubit 0], targets := [.classical 0 0] },
        { Operation.ofGate "Foo" with targets := [.qubit 1] }] }]⟩
    let t := ((Translation.new .default).visitAll path.operations).translation
    (translate path .default).script = .ok (t.render path.numQubits) ∧
      t.gatesUsed = ["rx", "ry", "Y", "H", "S", "CX", "rz", "measure"] ∧
      ∀ s ∈ t.gatesUsed, s ∈ primitiveSymbols := by
  intro path t
  have hhalt : ((Translation.new .default).visitAll path.operations).halt = none := by
    decide +kernel
  have hok : (translate path .default).script = .ok (t.render path.numQubits) :=
    translate_flat rfl hhalt
  exact ⟨hok, by decide +kernel,
    ((translated_regular_iff hok).2.mpr (by decide +kernel)).1⟩

private def irregular : ExecutionPath := ⟨[⟨0, 0⟩],
  [{ Operation.ofGate "R" with displayArgs := some "(PauliQ, 0.5)", targets := [.qubit 0] },
    { Operation.ofGate "R" with displayArgs := some "(PauliZ, )", targets := [.qubit 0] }]⟩

/-- **A script may import a symbol that is no primitive gate, and rotate by nothing**: the axis of a
rotation is taken from the last letter of any word, and blanks are an angle. -/
theorem exists_irregular :
    ∃ (path : ExecutionPath) (config : Config),
      path.operations =
        [{ Operation.ofGate "R" with
          displayArgs := some "(PauliQ, 0.5)", targets := [.qubit 0] },
        { Operation.ofGate "R" with
          displayArgs := some "(PauliZ, )", targets := [.qubit 0] }] ∧
      (translate path config).script = .ok (unlines ["# Qubits: 1", "", "import cirq",
        "import numpy as np", "from cirq.ops import rq, rz",
        "qubits = cirq.LineQubit.range(1)", "circuit = cirq.Circuit()",
        "circuit.append([rq(rads=0.5).on(qubits[0])])",
        "circuit.append([rz(rads= ).on(qubits[0])])"]) ∧
      let t := ((Translation.new config).visitAll path.operations).translation
      ("rq" ∈ t.gatesUsed ∧ "rq" ∉ primitiveSymbols) ∧
        ∃ l ∈ t.lines, l.primitive.instruction = .rotation 'z' (.literal " ") 0 ∧
          l.isComment = false ∧ (Angle.literal " ").isBlank = true := by
  have hhalt : ((Translation.new .default).visitAll irregular.operations).halt = none := by
    decide +kernel
  have hused : ((Translation.new .default).visitAll irregular.operations).translation.gatesUsed =
      ["rq", "rz"] := by decide +kernel
  have hlines : ((Translation.new .default).visitAll irregular.operations).translation.lines =
      [⟨⟨.rotation 'q' (.literal "0.5") 0, []⟩, 1⟩, ⟨⟨.rotation 'z' (.literal " ") 0, []⟩, 2⟩] := by
    decide +kernel
  refine ⟨irregular, .default, rfl, (translate_flat rfl hhalt).trans ?_, ?_, ?_⟩
  · unfold Translation.flatPrologue Translation.header Translation.imports
    rw [hlines, hused]
    exact congrArg (fun lines => Except.ok (unlines lines)) (by decide +kernel)
  · rw [hused]
    exact ⟨by decide, by decide⟩
  · rw [hlines]
    exact ⟨_, List.mem_cons_of_mem _ List.mem_cons_self, rfl, rfl, by decide⟩

end CircuitTrace
