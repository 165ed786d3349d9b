import CircuitTrace.Proofs.Gate.RotationArguments
import CircuitTrace.Proofs.Translation.Levels
import CircuitTrace.Proofs.Translation.Symbols

/-! # The two layouts of a script

The layouts write the same statements, one for each moment. In the flat one every statement is a
line of the script; in the other one the statements are cut into physical lines before they are
indented, and they add to another collection.

What a statement says comes from the table of gate classes and from numbers, except for labels and
angles, which are taken over as they are (`Instruction.takenOver`). So a statement is one line if
these texts have no line feeds (`Primitive.oneLine_render`): the symbol of a rotation ends in a
letter of a word, and all others are symbols of primitive gates (`oneLine_symbols`). As no statement
is empty, cutting it into lines leaves it as it is (`indented_of_oneLine`), and the layouts differ by
what stands around the statements, by the indentation, and by the name of the collection
(`layouts_of_same_statements`). -/

namespace CircuitTrace

/-! ### Texts on one line -/

/-- The text has no line feed in it. -/
def OneLine (s : String) : Prop := '\n' ∉ s.toList

instance : DecidablePred OneLine := fun s => inferInstanceAs (Decidable ('\n' ∉ s.toList))

namespace OneLine

variable {s s' : String}

@[simp] theorem append_iff : OneLine (s ++ s') ↔ OneLine s ∧ OneLine s' := by
  simp [OneLine]

theorem singleton_iff {c : Char} : OneLine (String.singleton c) ↔ c ≠ '\n' := by
  simp [OneLine, eq_comm]

theorem intercalate {sep : String} (hsep : OneLine sep) :
    ∀ {ss : List String}, (∀ s ∈ ss, OneLine s) → OneLine (String.intercalate sep ss)
  | [], _ => by simp [OneLine]
  | [s], h => by simpa using h s List.mem_cons_self
  | s :: s' :: ss, h => by
    obtain ⟨hs, hss⟩ := List.forall_mem_cons.mp h
    rw [String.intercalate_cons_cons, append_iff, append_iff]
    exact ⟨⟨hs, hsep⟩, intercalate hsep hss⟩

@[simp] theorem repr (n : Nat) : OneLine n.repr := by
  intro h
  have hmem : '\n' ∈ Nat.toDigits 10 n := by simpa using h
  exact absurd (Nat.isDigit_of_mem_toDigits (by omega) (by omega) hmem) (by decide)

end OneLine

/-- A text on one line that is not empty is its only physical line. -/
theorem Text.physicalLinesFrom_of_notMem {s : List Char} (h : '\n' ∉ s) (line : List Char)
    (hne : line ≠ [] ∨ s ≠ []) : physicalLinesFrom line s = [line.reverse ++ s] := by
  induction s generalizing line with
  | nil => simpa [physicalLinesFrom] using hne
  | cons c s ih =>
    obtain ⟨hc, hs⟩ : '\n' ≠ c ∧ '\n' ∉ s := by simpa using h
    rw [physicalLinesFrom]
    · rw [ih hs (c :: line) (.inl (List.cons_ne_nil c line))]
      simp
    · exact fun heq => hc heq.symm

/-- **Cutting a text on one line into lines leaves it as it is.** -/
theorem Translation.indented_of_oneLine {s : String} (h : OneLine s) (hne : s ≠ "") :
    indented s = ["    " ++ s] := by
  have hlist : s.toList ≠ [] := by simpa using hne
  rw [indented, Text.physicalLines, Text.physicalLinesFrom_of_notMem h [] (.inr hlist)]
  simp

/-! ### Statements on one line -/

theorem oneLine_renderQubits (qubits : List Nat) : OneLine (renderQubits qubits) := by
  refine OneLine.intercalate (by decide) fun s hs => ?_
  obtain ⟨q, -, rfl⟩ := List.mem_map.mp hs
  have hown : OneLine "qubits[" ∧ OneLine "]" := by decide
  simp [hown]

/-- The texts that an angle takes over. -/
def Angle.takenOver : Angle → List String
  | literal text => [text]
  | dyadic numerator exponent => [numerator, exponent]

/-- **The texts that an instruction takes over**: the label of an unhandled operation and the angle
of a rotation. -/
def Instruction.takenOver : Instruction → List String
  | gate _ _ => []
  | rotation _ angle _ => angle.takenOver
  | measure _ _ => []
  | unhandled label _ => [label]

theorem Angle.oneLine_render {angle : Angle} (h : ∀ s ∈ angle.takenOver, OneLine s) :
    OneLine angle.render := by
  have hpi : OneLine "-np.pi*" ∧ OneLine "/(2**(" ∧ OneLine "-1))" := by decide
  cases angle <;> simp_all [takenOver, render]

/-- **An instruction is on one line** if its symbol and the texts that it takes over are. -/
theorem Instruction.oneLine_render {i : Instruction} (hsymbol : ∀ s, i.symbol? = some s → OneLine s)
    (h : ∀ s ∈ i.takenOver, OneLine s) : OneLine i.render := by
  cases i with
  | gate symbol qubits =>
    have hown : OneLine "(" ∧ OneLine ")" := by decide
    have hgate : OneLine symbol := hsymbol symbol rfl
    unfold render
    simp [hown, hgate, oneLine_renderQubits]
  | rotation axis angle qubit =>
    have hown : OneLine "#" ∧ OneLine "" ∧ OneLine "r" ∧ OneLine "(rads=" ∧
      OneLine ").on(qubits[" ∧ OneLine "])" := by decide
    have haxis : OneLine (String.singleton axis) := by
      by_cases hi : axis = 'i'
      · exact OneLine.singleton_iff.mpr (by rw [hi]; decide)
      · have hsingle := hsymbol ("r" ++ String.singleton axis) (by simp [symbol?, hi])
        exact (OneLine.append_iff.mp hsingle).2
    have hangle : OneLine angle.render := Angle.oneLine_render h
    unfold render
    simp only [OneLine.append_iff]
    split_ifs <;> simp [hown, haxis, hangle]
  | measure qubit key =>
    have hown : OneLine "measure(qubits[" ∧ OneLine "], key='" ∧ OneLine "')" := by decide
    unfold render
    simp [hown]
  | unhandled label qubits =>
    have hown : OneLine "#" ∧ OneLine "(" ∧ OneLine ")" := by decide
    have hlabel : OneLine label := h label List.mem_cons_self
    unfold render
    simp [hown, hlabel, oneLine_renderQubits]

theorem Primitive.oneLine_render {p : Primitive}
    (hsymbol : ∀ s, p.instruction.symbol? = some s → OneLine s)
    (h : ∀ s ∈ p.instruction.takenOver, OneLine s) : OneLine p.render := by
  have hown : OneLine "" ∧ OneLine ".controlled_by(" ∧ OneLine ")" := by decide
  rw [render, OneLine.append_iff]
  refine ⟨Instruction.oneLine_render hsymbol h, ?_⟩
  split_ifs <;> simp [hown, oneLine_renderQubits]

/-! ### Symbols -/

theorem oneLine_of_mem_primitiveSymbols : ∀ s ∈ primitiveSymbols, OneLine s := by decide

/-- The axis of a rotation is a letter of a word. -/
theorem RotationArgs.axis_ne_lineFeed {displayArgs : Option String} {args : RotationArgs}
    (h : parse displayArgs = .ok args) : args.axis ≠ '\n' := by
  obtain _ | text := displayArgs
  · cases h
  · obtain ⟨_, _, -, ⟨word, last, -, hall, hlast, haxis⟩, -⟩ := ofText_eq_ok_iff.mp h
    have hword : Text.isWordChar last = true :=
      List.all_eq_true.mp hall last (List.mem_of_mem_getLast? hlast)
    have hblank : Text.isBlank '\n' = true := by decide
    intro hlower
    have hcode : last.toLower.toNat = 10 := by rw [← haxis, hlower]; rfl
    rw [Text.toNat_toLower] at hcode
    split_ifs at hcode
    · omega
    · obtain rfl : last = '\n' := Char.toNat_inj.mp hcode
      exact absurd hblank (Bool.eq_false_iff.mp (Text.isBlank_of_isWordChar hword))

/-- **The symbols of a leaf are on one line.** -/
theorem Operation.oneLine_symbol_leafPrimitives {op : Operation} {config : Config} {key : Nat}
    {ps : List Primitive} (h : op.leafPrimitives config key = .ok ps) :
    ∀ p ∈ ps, ∀ s, p.instruction.symbol? = some s → OneLine s := by
  by_cases hrotation : GateClass.classify op.gate = some .rotation
  · rw [leafPrimitives_of_classify hrotation] at h
    cases writtenAs_of_classPrimitives h with
    | @rotation args q _ hargs =>
      refine List.forall_mem_singleton.mpr fun s hs => ?_
      obtain ⟨-, rfl⟩ : args.axis ≠ 'i' ∧ "r" ++ String.singleton args.axis = s := by
        simpa [Instruction.symbol?] using hs
      exact OneLine.append_iff.mpr
        ⟨by decide, OneLine.singleton_iff.mpr (RotationArgs.axis_ne_lineFeed hargs)⟩
  · have hregular : AllRegular ps :=
      (regular_leafPrimitives_iff h).mpr fun hcls => absurd hcls hrotation
    exact fun p hp s hs => oneLine_of_mem_primitiveSymbols s ((hregular p hp).symbol s hs)

namespace Translation

theorem stable_oneLine_symbols :
    Stable fun t => ∀ p ∈ t.primitives, ∀ s, p.instruction.symbol? = some s → OneLine s where
  advance _ h := h
  leaf t op ps hps h := by
    rw [primitives_writeAll]
    exact List.forall_mem_append.mpr ⟨h, Operation.oneLine_symbol_leafPrimitives hps⟩
  note _ _ h := h

/-- **A line is written on one line** if the texts that it takes over are on one line. -/
theorem oneLine_render_of_mem_lines {config : Config} {tasks : List Task} {l : ScriptLine}
    (hl : l ∈ ((new config).performAll tasks).lines)
    (h : ∀ s ∈ l.primitive.instruction.takenOver, OneLine s) : OneLine l.render :=
  Primitive.oneLine_render (stable_oneLine_symbols.performAll tasks (List.forall_mem_nil _) _
    (List.mem_map_of_mem hl)) h

end Translation

/-! ### Statements of moments -/

/-- **The text is the statement of a moment** that is added to a collection: a comment as it is, or
instructions that are appended together. -/
inductive IsStatement (collection : String) : List ScriptLine → String → Prop where
  | comment {l : ScriptLine} (hl : l.isComment = true) : IsStatement collection [l] l.render
  | append {m : List ScriptLine} (hne : m ≠ []) (hm : ∀ l ∈ m, l.isComment = false) :
      IsStatement collection m
        (collection ++ ".append([" ++ String.intercalate ", " (m.map ScriptLine.render) ++ "])")

/-- The statement of the flat layout in the other one: what is appended to the circuit is appended
to the list of moments. -/
def inMomentList (statement : String) : String :=
  if "circuit.append".toList <+: statement.toList then
    "moments.append" ++ String.ofList (statement.toList.drop "circuit.append".toList.length)
  else statement

theorem inMomentList_append (rest : String) :
    inMomentList ("circuit.append" ++ rest) = "moments.append" ++ rest := by
  rw [inMomentList, String.toList_append, if_pos (List.prefix_append _ _), List.drop_left,
    String.ofList_toList]

theorem inMomentList_of_notPrefix {s : String} (h : ¬ "circuit.append".toList <+: s.toList) :
    inMomentList s = s := if_neg h

/-- A comment starts with a number sign. -/
theorem Instruction.exists_render_of_isComment {i : Instruction} (h : i.isComment = true) :
    ∃ rest, i.render = "#" ++ rest := by
  cases i with
  | gate symbol qubits => cases h
  | measure qubit key => cases h
  | unhandled label qubits =>
    refine ⟨label ++ "(" ++ renderQubits qubits ++ ")", ?_⟩
    unfold render
    simp only [String.append_assoc]
  | rotation axis angle qubit =>
    obtain rfl : axis = 'i' := by
      by_contra hi
      simp [isComment, symbol?, hi] at h
    refine ⟨"r" ++ String.singleton 'i' ++ "(rads=" ++ angle.render ++ ").on(qubits[" ++
      toString qubit ++ "])", ?_⟩
    unfold render
    simp only [if_true, String.append_assoc]

theorem ScriptLine.exists_toList_render {l : ScriptLine} (h : l.isComment = true) :
    ∃ rest, l.render.toList = '#' :: rest := by
  obtain ⟨rest, hrest⟩ := Instruction.exists_render_of_isComment h
  unfold render Primitive.render
  rw [hrest]
  exact ⟨_, by simp only [String.toList_append, List.append_assoc]; rfl⟩

namespace IsStatement
variable {collection s s' : String} {m : List ScriptLine}

/-- A moment has one statement. -/
theorem unique (h : IsStatement collection m s) (h' : IsStatement collection m s') : s = s' := by
  cases h with
  | comment hl =>
    cases h' with
    | comment => rfl
    | append _ hm => exact absurd hl (by simp [hm _ List.mem_cons_self])
  | append _ hm =>
    cases h' with
    | comment hl => exact absurd hl (by simp [hm _ List.mem_cons_self])
    | append => rfl

theorem oneLine (h : IsStatement collection m s) (hcollection : OneLine collection)
    (hm : ∀ l ∈ m, OneLine l.render) : OneLine s := by
  have hown : OneLine ".append([" ∧ OneLine "])" ∧ OneLine ", " := by decide
  cases h with
  | comment => exact hm _ List.mem_cons_self
  | append =>
    have hlines : OneLine (String.intercalate ", " (m.map ScriptLine.render)) :=
      OneLine.intercalate hown.2.2 (List.forall_mem_map.mpr hm)
    simp [hcollection, hown, hlines]

theorem ne_empty (h : IsStatement collection m s) : s ≠ "" := by
  cases h with
  | @comment l hl =>
    obtain ⟨rest, hrest⟩ := ScriptLine.exists_toList_render hl
    intro hempty
    simp [hempty] at hrest
  | append => simp

/-- **The statement of the moment in the other layout.** -/
theorem inMomentList (h : IsStatement "circuit" m s) :
    IsStatement "moments" m (CircuitTrace.inMomentList s) := by
  cases h with
  | @comment l hl =>
    obtain ⟨rest, hrest⟩ := ScriptLine.exists_toList_render hl
    rw [inMomentList_of_notPrefix (by simp [hrest])]
    exact .comment hl
  | append hne hm =>
    have hcut : ∀ x : String, "circuit" ++ ".append([" ++ x ++ "])" =
        "circuit.append" ++ ("([" ++ x ++ "])") := fun x => by simp [← String.toList_inj]
    have hpaste : ∀ x : String, "moments" ++ ".append([" ++ x ++ "])" =
        "moments.append" ++ ("([" ++ x ++ "])") := fun x => by simp [← String.toList_inj]
    rw [hcut, inMomentList_append, ← hpaste]
    exact .append hne hm

end IsStatement

section Statements
variable {lines m : List ScriptLine}

theorem isStatement_renderMoment (h : lines.Pairwise ScriptLine.Precedes) (hm : m ∈ moments lines)
    (collection : String) : IsStatement collection m (renderMoment collection m) := by
  obtain ⟨l, rfl, hl, hrender⟩ | ⟨hnone, hrender⟩ := renderMoment_cases h hm collection
  · rw [hrender]
    exact .comment hl
  · rw [hrender]
    exact .append (List.ne_nil_of_mem_splitBy hm) hnone

/-- **The layouts write the same statement**, up to the name of the collection. -/
theorem inMomentList_renderMoment (h : lines.Pairwise ScriptLine.Precedes)
    (hm : m ∈ moments lines) :
    inMomentList (renderMoment "circuit" m) = renderMoment "moments" m :=
  (isStatement_renderMoment h hm "circuit").inMomentList.unique
    (isStatement_renderMoment h hm "moments")

end Statements

/-! ### Scripts -/

/-- **The layouts write the same statements.** After any tasks, if the labels and angles that are
taken over have no line feeds, both scripts have one statement for each moment, on one line, between
a prologue and an epilogue that know of the number of qubits, the imported symbols and the unhandled
labels only; the statements of a moment list are those of the flat script, indented, with the list
in place of the circuit. The moments make up the lines, so that every line is written once and in
order. -/
theorem layouts_of_same_statements (config : Config) (tasks : List Translation.Task)
    (numQubits : Nat) :
    let t := (Translation.new config).performAll tasks
    (∀ l ∈ t.lines, ∀ s ∈ l.primitive.instruction.takenOver, OneLine s) →
      ∃ statements : List String,
        t.renderFlat numQubits = unlines (t.flatPrologue numQubits ++ statements) ∧
        t.renderMomentList numQubits =
          unlines (t.momentListPrologue numQubits ++
            statements.map (fun s => "    " ++ inMomentList s) ++
            Translation.momentListEpilogue) ∧
        (∀ s ∈ statements, OneLine s ∧ OneLine (inMomentList s)) ∧
        List.Forall₂ (IsStatement "circuit") (moments t.lines) statements ∧
        List.Forall₂ (IsStatement "moments") (moments t.lines) (statements.map inMomentList) ∧
        (moments t.lines).flatten = t.lines ∧
        ∀ t' : Translation, t'.gatesUsed = t.gatesUsed → t'.gatesErrored = t.gatesErrored →
          t'.flatPrologue numQubits = t.flatPrologue numQubits ∧
            t'.momentListPrologue numQubits = t.momentListPrologue numQubits := by
  intro t htexts
  have hordered : t.lines.Pairwise ScriptLine.Precedes :=
    (Translation.leveled_performAll config tasks).ordered
  have hrender : ∀ m ∈ moments t.lines, ∀ l ∈ m, OneLine l.render := fun m hm l hl =>
    have hline : l ∈ t.lines := (sublist_of_mem_moments hm).subset hl
    Translation.oneLine_render_of_mem_lines hline (htexts l hline)
  have hstatement := fun m hm => isStatement_renderMoment (m := m) hordered hm
  have hindented : ∀ m ∈ moments t.lines, Translation.indented (renderMoment "moments" m) =
      ["    " ++ inMomentList (renderMoment "circuit" m)] := fun m hm => by
    rw [inMomentList_renderMoment hordered hm]
    exact Translation.indented_of_oneLine
      ((hstatement m hm "moments").oneLine (by decide) (hrender m hm)) (hstatement m hm _).ne_empty
  refine ⟨(moments t.lines).map (renderMoment "circuit"), rfl, ?_, ?_, ?_, ?_,
    List.flatten_splitBy _ t.lines, ?_⟩
  · unfold Translation.renderMomentList
    rw [List.flatMap_congr hindented, List.map_map, List.map_eq_flatMap]
    rfl
  · intro s hs
    obtain ⟨m, hm, rfl⟩ := List.mem_map.mp hs
    have hcircuit := hstatement m hm "circuit"
    exact ⟨hcircuit.oneLine (by decide) (hrender m hm),
      hcircuit.inMomentList.oneLine (by decide) (hrender m hm)⟩
  · exact List.forall₂_map_right_iff.mpr (List.forall₂_same.mpr fun m hm => hstatement m hm _)
  · rw [List.map_map]
    exact List.forall₂_map_right_iff.mpr
      (List.forall₂_same.mpr fun m hm => (hstatement m hm "circuit").inMomentList)
  · intro t' hused herrored
    simp only [Translation.flatPrologue, Translation.momentListPrologue, Translation.header,
      Translation.imports, hused, herrored, and_self]

/-- A comment between two moments, one of them with an angle that is taken over. -/
theorem layouts_of_three_moments :
    let r : Operation := { Operation.ofGate "R" with
      displayArgs := some "(PauliX, 0.5)", targets := [.qubit 0] }
    let foo : Operation := { Operation.ofGate "Foo" with targets := [.qubit 1] }
    let measure : Operation := { Operation.ofGate "M" with targets := [.qubit 0] }
    let t := (Translation.new .default).performAll
      [.visitAll [{ Operation.ofGate "Main" with children := some [r, foo] }], .visit 0 measure]
    (∀ l ∈ t.lines, ∀ s ∈ l.primitive.instruction.takenOver, OneLine s) ∧
      ∃ statements : List String,
        t.renderFlat 2 = unlines (t.flatPrologue 2 ++ statements) ∧
        t.renderMomentList 2 =
          unlines (t.momentListPrologue 2 ++
            statements.map (fun s => "    " ++ inMomentList s) ++
            Translation.momentListEpilogue) ∧
        statements.length = 3 := by
  intro r foo measure t
  have htexts : ∀ l ∈ t.lines, ∀ s ∈ l.primitive.instruction.takenOver, OneLine s := by
    decide +kernel
  have hmoments : (moments t.lines).length = 3 := by decide +kernel
  obtain ⟨statements, hflat, hlist, -, hstatements, -⟩ :=
    layouts_of_same_statements .default _ 2 htexts
  exact ⟨htexts, statements, hflat, hlist, hstatements.length_eq.symm.trans hmoments⟩

end CircuitTrace
