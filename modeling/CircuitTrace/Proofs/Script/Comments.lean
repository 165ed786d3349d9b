import CircuitTrace.Proofs.Script.Lines
import CircuitTrace.Proofs.Translation.Levels
import CircuitTrace.Proofs.Translation.Noted

/-! # Labels in comments

Two kinds of comments take over labels of unhandled operations: the list of them at the head of a
script, and the lines of the operations, if they are written. Nothing is escaped, so a label that
ends a line leaves its comment, unless it starts another one behind the end.

The lines of unhandled operations add nothing to this. Such a comment is a moment of its own, so its
label stands behind the number sign (`commented_momentGlyphs`), and the label is in the list as well
(`labelsNoted_visitAll`), where it is followed by a comma or by nothing
(`continuesComment_of_mem`). So what a script quotes stays in comments exactly if it does in the
list, that is, if every line of the list behind its first one that quotes a label is a comment
(`labels_stay_in_comments_iff`). Labels without line ends do no harm;
`exists_label_outside_comment` is a label with one. -/

namespace CircuitTrace

open Glyph Newlines

variable {newlines : Newlines}

/-! ### Comments of unhandled operations -/

theorem Primitive.not_quotes_glyphs {p : Primitive} (h : p.isUnhandled = false) :
    ¬ Quotes p.glyphs := by
  have hinstruction : ¬ Quotes p.instruction.glyphs := by
    obtain ⟨instruction, controls⟩ := p
    cases instruction with
    | unhandled label qubits => cases h
    | gate symbol qubits => exact not_quotes_own _
    | rotation axis angle qubit => exact not_quotes_own _
    | measure qubit key => exact not_quotes_own _
  rw [glyphs, quotes_append]
  exact not_or_intro hinstruction (not_quotes_own _)

theorem Primitive.commented_glyphs {p : Primitive} {label : String} {qubits : List Nat}
    (hp : p.instruction = .unhandled label qubits)
    (h : newlines.ContinuesComment (quote label)) : newlines.Commented p.glyphs := by
  have hsign : newlines.lines (own "#") = [own "#"] := by cases newlines <;> rfl
  rw [glyphs, hp, Instruction.glyphs, List.append_assoc, List.append_assoc,
    commented_append_iff hsign (by decide)]
  refine h.append ?_
  rw [quotes_append]
  exact not_or_intro (not_quotes_own _) (not_quotes_own _)

/-- **A moment keeps what it quotes in comments** if the labels do behind a number sign. -/
theorem commented_momentGlyphs {lines m : List ScriptLine}
    (hordered : lines.Pairwise ScriptLine.Precedes)
    (hlabels : ∀ l ∈ lines, ∀ label qubits, l.primitive.instruction = .unhandled label qubits →
      newlines.ContinuesComment (quote label))
    (hm : m ∈ moments lines) (collection : String) :
    newlines.Commented (momentGlyphs collection m) := by
  by_cases hunhandled : ∃ l ∈ m, ∃ label qubits,
      l.primitive.instruction = .unhandled label qubits
  · -- the comment of an unhandled operation is alone in its moment
    obtain ⟨l, hl, label, qubits, hinstruction⟩ := hunhandled
    have hcomment : l.isComment = true := by
      unfold ScriptLine.isComment
      rw [hinstruction]
      rfl
    have hline : l ∈ lines := (sublist_of_mem_moments hm).subset hl
    obtain rfl := eq_singleton_of_mem_moments hordered hm hl hcomment
    have hglyphs : momentGlyphs collection [l] = l.primitive.glyphs := by
      simp [momentGlyphs, hcomment, ScriptLine.glyphs]
    rw [hglyphs]
    exact Primitive.commented_glyphs hinstruction (hlabels l hline label qubits hinstruction)
  · have hglyphs : ∀ s ∈ m.map ScriptLine.glyphs, ¬ Quotes s := by
      intro s hs
      obtain ⟨l, hl, rfl⟩ := List.mem_map.mp hs
      refine Primitive.not_quotes_glyphs ?_
      unfold Primitive.isUnhandled
      split
      · next label qubits hinstruction =>
        exact absurd ⟨l, hl, label, qubits, hinstruction⟩ hunhandled
      · rfl
    refine commented_of_not_quotes ?_
    unfold momentGlyphs
    split_ifs
    · exact not_quotes_intercalate (not_quotes_own _) hglyphs
    · rw [quotes_append, quotes_append]
      exact not_or_intro
        (not_or_intro (not_quotes_own _) (not_quotes_intercalate (not_quotes_own _) hglyphs))
        (not_quotes_own _)

/-! ### The list of labels -/

/-- A label in a list is followed by a comma or by nothing. -/
theorem exists_quoteAll_of_mem {label : String} : ∀ {labels : List String}, label ∈ labels →
    ∃ before after, quoteAll labels = before ++ (quote label ++ after) ∧
      (after = [] ∨ ∃ more, after = own ", " ++ more)
  | [l], h => by
    obtain rfl := List.mem_singleton.mp h
    exact ⟨[], [], by simp [quoteAll], Or.inl rfl⟩
  | l :: l' :: labels, h => by
    have hcons : quoteAll (l :: l' :: labels) =
        quote l ++ own ", " ++ quoteAll (l' :: labels) := List.intercalate_cons_cons
    rw [hcons]
    rcases List.mem_cons.mp h with rfl | h
    · exact ⟨[], own ", " ++ quoteAll (l' :: labels), by simp, Or.inr ⟨_, rfl⟩⟩
    · obtain ⟨before, after, hlist, hafter⟩ := exists_quoteAll_of_mem h
      exact ⟨quote l ++ own ", " ++ before, after, by rw [hlist]; simp, hafter⟩

/-- **A label stays in its comment** if it does in the list. -/
theorem continuesComment_of_mem {label : String} {labels : List String}
    (h : newlines.ContinuesComment (quoteAll labels)) (hlabel : label ∈ labels) :
    newlines.ContinuesComment (quote label) := by
  obtain ⟨before, after, hlist, hafter⟩ := exists_quoteAll_of_mem hlabel
  rw [hlist] at h
  refine h.of_append_left.of_append_right fun line hline => ?_
  rcases hafter with rfl | ⟨more, rfl⟩
  · obtain rfl : [] = line := Option.some.inj hline
    decide
  · have hcomma : newlines.lines (own ", ") = [own ", "] := by cases newlines <;> rfl
    obtain ⟨first, rest, -, hlines⟩ := newlines.exists_lines_append_of_line hcomma more
    rw [hlines] at hline
    obtain rfl : own ", " ++ first = line := Option.some.inj hline
    have hown : own ", " = [⟨',', false⟩, ⟨' ', false⟩] := by decide
    simp [hown, IsComment, isIndentation]

/-- Labels that go on with comments behind their first lines do so in the list. -/
theorem isComment_of_mem_tail_quoteAll : ∀ {labels : List String},
    (∀ label ∈ labels, ∀ line ∈ (newlines.lines (quote label)).tail, IsComment line) →
    ∀ line ∈ (newlines.lines (quoteAll labels)).tail, IsComment line
  | [], _ => nofun
  | [label], h => by
    have hone : quoteAll [label] = quote label := List.intercalate_singleton
    rw [hone]
    exact h label List.mem_cons_self
  | label :: label' :: labels, h => by
    have hcomma : ∀ line ∈ (newlines.lines (own ", ")).tail, IsComment line := by
      cases newlines <;> exact fun line hline => absurd hline List.not_mem_nil
    have hcons : quoteAll (label :: label' :: labels) =
        quote label ++ own ", " ++ quoteAll (label' :: labels) := List.intercalate_cons_cons
    obtain ⟨hlabel, hlabels⟩ := List.forall_mem_cons.mp h
    rw [hcons]
    exact newlines.isComment_of_mem_tail_append
      (newlines.isComment_of_mem_tail_append hlabel hcomma)
      (isComment_of_mem_tail_quoteAll hlabels)

/-! ### Scripts -/

theorem commented_map_own (lines : List String) : ∀ l ∈ lines.map own, newlines.Commented l := by
  intro l hl
  obtain ⟨s, -, rfl⟩ := List.mem_map.mp hl
  exact commented_of_not_quotes (not_quotes_own s)

theorem commented_flatMap_iff : ∀ {lines : List (List Glyph)},
    newlines.Commented (lines.flatMap (· ++ own "\n")) ↔ ∀ l ∈ lines, newlines.Commented l
  | [] => iff_of_true (commented_of_not_quotes (by simp [Quotes])) nofun
  | l :: lines => by
    have hcons : (l :: lines).flatMap (· ++ own "\n") =
        l ++ ⟨'\n', false⟩ :: lines.flatMap (· ++ own "\n") := by
      rw [List.flatMap_cons, List.append_assoc]
      rfl
    rw [hcons, commented_append_lineFeed_iff, commented_flatMap_iff, List.forall_mem_cons]

namespace Translation

theorem commented_headerGlyphs_iff (t : Translation) (numQubits : Nat) :
    (∀ l ∈ t.headerGlyphs numQubits, newlines.Commented l) ↔
      newlines.ContinuesComment (quoteAll t.gatesErrored) := by
  have hlead : newlines.lines (own "# Operations that did not call a primitive gate: ") =
      [own "# Operations that did not call a primitive gate: "] := by
    cases newlines <;> decide
  unfold headerGlyphs
  rw [List.forall_mem_cons, and_iff_right (commented_of_not_quotes (not_quotes_own _))]
  rcases hlabels : t.gatesErrored with _ | ⟨label, labels⟩
  · exact iff_of_true nofun nofun
  · exact List.forall_mem_singleton.trans (commented_append_iff hlead (by decide))

/-- **A script keeps what it quotes in comments** exactly if the list at its head does. -/
theorem commented_glyphs_iff {t : Translation} (hleveled : t.Leveled) (hnoted : t.LabelsNoted)
    (numQubits : Nat) :
    newlines.Commented (t.glyphs numQubits) ↔
      newlines.ContinuesComment (quoteAll t.gatesErrored) := by
  rw [glyphs, commented_flatMap_iff, ← t.commented_headerGlyphs_iff numQubits, lineGlyphs]
  constructor
  · intro h l hl
    have hprologue : ∀ prologue, l ∈ t.prologueGlyphs numQubits prologue :=
      fun prologue => List.mem_append_left _ hl
    rcases hdialect : t.config.dialect with _ | _ <;> rw [hdialect] at h
    · exact h l (List.mem_append_left _ (hprologue _))
    · exact h l (List.mem_append_left _ (List.mem_append_left _ (hprologue _)))
  · intro h
    have hprologue : ∀ prologue, ∀ l ∈ t.prologueGlyphs numQubits prologue,
        newlines.Commented l :=
      fun prologue => List.forall_mem_append.mpr ⟨h, commented_map_own _⟩
    have hmoments : ∀ collection, ∀ m ∈ moments t.lines,
        newlines.Commented (momentGlyphs collection m) := by
      intro collection m hm
      refine commented_momentGlyphs hleveled.ordered (fun l hl label qubits hinstruction => ?_) hm _
      exact continuesComment_of_mem ((t.commented_headerGlyphs_iff numQubits).mp h)
        (hnoted l.primitive (List.mem_map_of_mem hl) label qubits hinstruction)
    rcases t.config.dialect with _ | _
    · refine List.forall_mem_append.mpr ⟨hprologue _, List.forall_mem_map.mpr fun m hm => ?_⟩
      exact hmoments _ m hm
    · refine List.forall_mem_append.mpr
        ⟨List.forall_mem_append.mpr ⟨hprologue _, fun l hl => ?_⟩, commented_map_own _⟩
      obtain ⟨m, hm, hl⟩ := List.mem_flatMap.mp hl
      exact (hmoments _ m hm).indentedGlyphs l hl

end Translation

/-- **What a script quotes of unhandled operations stays in comments** exactly if it does in the
list of their labels: every physical line of the script that quotes a label is a comment if and only
if every line of the list behind its first one that quotes a label is a comment. It does if every
line of a label behind its first one is a comment, so in particular if no label has a line end, and
only if every such line that is not empty is one. The labels are those of the unsupported operations
that the translation reaches. -/
theorem labels_stay_in_comments_iff {path : ExecutionPath} {config : Config} {text : String}
    (h : (translate path config).script = .ok text) (newlines : Newlines) :
    let script :=
      ((Translation.new config).visitAll path.operations).translation.glyphs path.numQubits
    let labels := firstNoted (Operation.unsupportedLabels (Operation.reachedAll path.operations))
    plain script = text ∧
      ((∀ line ∈ newlines.lines script, Quotes line → IsComment line) ↔
        ∀ line ∈ (newlines.lines (quoteAll labels)).tail, Quotes line → IsComment line) ∧
      ((∀ label ∈ labels, ∀ line ∈ (newlines.lines (quote label)).tail, IsComment line) →
        ∀ line ∈ newlines.lines script, Quotes line → IsComment line) ∧
      ((∀ line ∈ newlines.lines script, Quotes line → IsComment line) →
        ∀ label ∈ labels, ∀ line ∈ (newlines.lines (quote label)).tail,
          line ≠ [] → IsComment line) := by
  intro script labels
  obtain ⟨hhalt, htext⟩ := translate_eq_ok h
  have hleveled : ((Translation.new config).visitAll path.operations).translation.Leveled :=
    Translation.leveled_performAll config [.visitAll path.operations]
  have hiff : newlines.Commented script ↔ _ := Translation.commented_glyphs_iff hleveled
    (Translation.labelsNoted_visitAll config path.operations) path.numQubits
  rw [Translation.gatesErrored_visitAll hhalt] at hiff
  refine ⟨(Translation.plain_glyphs _ _).trans htext.symm, hiff, fun hlabels => ?_,
    fun hscript label hlabel line hline hne => ?_⟩
  · exact hiff.mpr fun line hline _ => isComment_of_mem_tail_quoteAll hlabels line hline
  · have hlist : newlines.ContinuesComment (quote label) :=
      continuesComment_of_mem (hiff.mp hscript) hlabel
    exact hlist line hline (newlines.quotes_of_mem_lines line (List.mem_of_mem_tail hline) hne)

/-- Two unhandled operations, one of which has a label of two lines, the second of which is a
comment. -/
theorem labels_stay_in_comments_of_two :
    let path : ExecutionPath := ⟨[⟨0, 0⟩, ⟨1, 0⟩], [{ Operation.ofGate "Main" with
      children := some [
        { Operation.ofGate "Foo" with targets := [.qubit 0] },
        { Operation.ofGate "H" with targets := [.qubit 1] },
        { Operation.ofGate "Bar\n # Baz" with targets := [.qubit 1] }] }]⟩
    let config : Config := { Config.default with dialect := .momentList }
    let t := ((Translation.new config).visitAll path.operations).translation
    (translate path config).script = .ok (t.render path.numQubits) ∧
      ∀ line ∈ Newlines.universal.lines (t.glyphs path.numQubits),
        Quotes line → IsComment line := by
  intro path config t
  have hhalt : ((Translation.new config).visitAll path.operations).halt = none := by
    decide +kernel
  have hok : (translate path config).script = .ok (t.render path.numQubits) := by
    rw [script_translate, Walk.script, hhalt]
  exact ⟨hok, (labels_stay_in_comments_iff hok .universal).2.1.mpr (by decide +kernel)⟩

private def outside : ExecutionPath :=
  ⟨[⟨0, 0⟩], [{ Operation.ofGate "Foo\nimport os" with targets := [.qubit 0] }]⟩

/-- **A label may leave its comments**: behind a line feed in it the script goes on with code. -/
theorem exists_label_outside_comment :
    ∃ (path : ExecutionPath) (config : Config),
      path.operations = [{ Operation.ofGate "Foo\nimport os" with targets := [.qubit 0] }] ∧
      config.strict = false ∧
      (translate path config).script = .ok (unlines ["# Qubits: 1",
        "# Operations that did not call a primitive gate: Foo", "import os", "", "import cirq",
        "import numpy as np", "qubits = cirq.LineQubit.range(1)", "circuit = cirq.Circuit()",
        "#Foo", "import os(qubits[0])"]) ∧
      let script :=
        ((Translation.new config).visitAll path.operations).translation.glyphs path.numQubits
      ∀ newlines : Newlines, ∃ line ∈ newlines.lines script,
        plain line = "import os" ∧ Quotes line ∧ ¬ IsComment line := by
  have hhalt : ((Translation.new .default).visitAll outside.operations).halt = none := by
    decide +kernel
  have hok : (translate outside .default).script =
      .ok (((Translation.new .default).visitAll outside.operations).translation.render 1) := by
    rw [script_translate, Walk.script, hhalt]
    rfl
  refine ⟨outside, .default, rfl, rfl, hok.trans (congrArg Except.ok (by decide +kernel)), ?_⟩
  intro script newlines
  refine ⟨quote "import os", ?_, by decide, by decide, by decide⟩
  cases newlines <;> decide +kernel

end CircuitTrace
