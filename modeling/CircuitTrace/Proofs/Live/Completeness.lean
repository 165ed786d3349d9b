import CircuitTrace.Proofs.Live.EchoedPart
import CircuitTrace.Proofs.Translation.Strictness

/-! # The echo is complete

A live translation counts the lines that it has passed to its sink, and the count moves on only
after an operation that was translated without a stop. That no line is skipped or echoed twice
therefore rests on two facts. Only operations that are written as a whole or fail as a whole are
ever translated (`hear_cases`), so one that fails leaves no line behind that would be echoed with
the next one (`Complete.emit`). And a sink that is full takes nothing any more, so the lines that it
took are the first ones (`takenLines_append`).

Every report keeps `Live.Complete` up (`Complete.hear`), and so do all reports of a session, also
when the contract is broken in the end (`live_echo_complete`). -/

namespace CircuitTrace

/-- The lines that a sink takes of those that are passed to it: all of them, or the first ones, as
many as it has room for. -/
def takenLines (room : Option Nat) (lines : List String) : List String :=
  match room with
  | none => lines
  | some n => lines.take n

/-- Of further lines a sink takes as many as the first ones have left room for. -/
theorem takenLines_append (room : Option Nat) (lines more : List String) :
    takenLines room (lines ++ more) =
      takenLines room lines ++ takenLines (room.map (· - lines.length)) more := by
  rcases room with _ | n
  · rfl
  · exact List.take_append

namespace Operation

/-- An operation that can be written is not unhandled. -/
theorem isUnhandled_of_settles {op : Operation} {config : Config} {key : Nat}
    {ps : List Primitive} (hop : op.Settles) (hps : op.leafPrimitives config key = .ok ps) :
    ∀ p ∈ ps, p.isUnhandled = false := by
  rcases hop with hcls | ⟨hgate, -⟩
  · obtain ⟨cls, hcls⟩ := Option.isSome_iff_exists.mp hcls
    rw [leafPrimitives_of_classify hcls] at hps
    exact isUnhandled_classPrimitives hps
  · rw [leafPrimitives_of_exponential hgate] at hps
    exact isUnhandled_exponential hps

end Operation

namespace Translation

/-- An operation that can be written leaves lines behind, and notes no label. -/
theorem exists_lines_of_settles {op : Operation} {t : Translation} {ps : List Primitive}
    (hop : op.Settles) (hps : op.leafPrimitives t.config t.measurementKey = .ok ps) (depth : Nat) :
    let w := visit (depth - 1) op t
    w.halt = none ∧ w.translation.gatesErrored = t.gatesErrored ∧
      ∃ new, w.translation.lines = t.lines ++ new ∧
        ∀ line ∈ new, line.primitive.isUnhandled = false := by
  intro w
  have hwalk : w.translation = _ := translation_visit_of_settles hop (depth - 1) t
  have hfollows := visit_follows op (depth - 1) t
  rw [Operation.leaves_of_isLeaf hop.isLeaf, script_singleton, hps] at hfollows
  rw [hps] at hwalk
  obtain ⟨new, hnew, hprimitives⟩ :=
    exists_lines_writeAll ps (t.enter op (depth - 1 + 1)).translation
  refine ⟨hfollows.1, by rw [hwalk]; exact gatesErrored_settle _ _, new,
    by rw [hwalk]; exact hnew, fun line hline => ?_⟩
  exact Operation.isUnhandled_of_settles hop hps _ (hprimitives ▸ List.mem_map_of_mem hline)

end Translation

namespace Live

variable {l : Live} {room : Option Nat} {es : List Entry}

/-- **The echo is complete**: what the entries echo is what the sink takes of the lines of the
translation, and nothing that cannot be expressed has been noted or written. -/
structure Complete (room : Option Nat) (l : Live) (es : List Entry) : Prop where
  /-- All lines have been passed to the sink. -/
  written : l.written = l.translation.lines.length
  /-- Every line has taken its place in the sink. -/
  left : l.sinkRoom = room.map (· - l.translation.lines.length)
  /-- The lines that are echoed are those that the sink takes. -/
  lines : echoedLines es = takenLines room (l.translation.lines.map ScriptLine.render)
  /-- No line is the comment of an unhandled operation. -/
  handled : ∀ line ∈ l.translation.lines, line.primitive.isUnhandled = false
  /-- No label has been noted. -/
  errored : l.translation.gatesErrored = []

theorem complete_new (config : Config) (room : Option Nat) :
    Complete room (.new config room) [] := by
  refine ⟨rfl, ?_, ?_, fun line h => absurd h List.not_mem_nil, rfl⟩
  · cases room <;> rfl
  · rcases room with _ | n
    · rfl
    · exact List.take_nil.symm

/-! ### Echoing -/

/-- **The sink is passed the lines that are new.** -/
theorem echo_of_lines {old new : List ScriptLine} (hwritten : l.written = old.length)
    (hleft : l.sinkRoom = room.map (· - old.length))
    (hlines : l.translation.lines = old ++ new) :
    l.echo.1 = { l with
        written := l.translation.lines.length
        sinkRoom := room.map (· - l.translation.lines.length) } ∧
      echoedLines l.echo.2 =
        takenLines (room.map (· - old.length)) (new.map ScriptLine.render) := by
  have hfresh : l.translation.lines.drop l.written = new := by
    rw [hlines, hwritten, List.drop_left]
  have hlength : l.translation.lines.length = old.length + new.length := by
    rw [hlines, List.length_append]
  unfold echo
  rw [hfresh, hlength]
  rcases room with _ | n
  · rw [Option.map_none] at hleft ⊢
    simp only [hleft]
    exact ⟨trivial, echoedLines_map_echoed _⟩
  · rw [Option.map_some] at hleft ⊢
    have hwarned : ∀ message, echoedLines [warning message] = [] := fun _ => rfl
    simp only [hleft, List.length_map, Nat.sub_sub, Option.map_some, echoedLines_append,
      echoedLines_map_echoed, true_and]
    split_ifs
    · rw [hwarned, List.append_nil]
      rfl
    · exact List.append_nil _

/-! ### Translating -/

/-- **Translating an operation keeps the echo complete.** -/
theorem Complete.emit (h : l.Complete room es) {op : Operation} (hop : op.Settles) (depth : Nat) :
    (l.emit op depth).live.Complete room (es ++ (l.emit op depth).entries) := by
  rcases hps : op.leafPrimitives l.translation.config l.translation.measurementKey with halt | ps
  · obtain ⟨hlines, -, hlive⟩ := emit_of_error hop hps depth
    rw [hlive]
    refine ⟨h.written, h.left, ?_, h.handled, h.errored⟩
    rw [echoedLines_append, hlines, List.append_nil]
    exact h.lines
  · obtain ⟨hhalt, herrored, new, hlines, hhandled⟩ := Translation.exists_lines_of_settles hop hps depth
    obtain ⟨hlive, hechoed⟩ := echo_of_lines
      (l := { l with translation := (Translation.visit (depth - 1) op l.translation).translation })
      h.written h.left hlines
    unfold Live.emit
    simp only [hhalt, hlive]
    refine ⟨rfl, rfl, ?_, fun line hline => ?_, herrored.trans h.errored⟩
    · rw [echoedLines_append, echoedLines_append, echoedLines_map_logged, List.nil_append, h.lines,
        hechoed]
      simp only [hlines, List.map_append, takenLines_append, List.length_map]
    · simp only [hlines, List.mem_append] at hline
      exact hline.elim (h.handled line) (hhandled line)

/-! ### Hearing -/

/-- **Only operations with a class and exponentials without calls are ever translated.** -/
theorem hear_cases (l : Live) (r : Report) :
    (∃ op depth handled, op.Settles ∧
        l.hear r = { l with handledDepth := handled }.emit op depth) ∨
      ∃ handled fs, echoedLines fs = [] ∧
        l.hear r = ⟨{ l with handledDepth := handled }, fs, none⟩ := by
  rcases r with record | ⟨op, depth⟩ | ⟨op, depth⟩
  · exact Or.inr ⟨_, _, echoedLines_map_logged [record], rfl⟩
  · unfold hear
    simp only
    split_ifs with hbody hcls
    · exact Or.inr ⟨_, [], rfl, rfl⟩
    · exact Or.inl ⟨op, depth, _, Or.inl hcls, rfl⟩
    · exact Or.inr ⟨_, [], rfl, rfl⟩
  · unfold hear
    simp only
    split_ifs with hexp
    · simp only [Bool.and_eq_true, decide_eq_true_eq] at hexp
      obtain ⟨⟨hgate, hchildren⟩, -⟩ := hexp
      have hnone : op.children = none := by
        simpa [Operation.hasChildren] using hchildren
      exact Or.inl ⟨op, depth, l.handledDepth, Or.inr ⟨hgate, hnone⟩, rfl⟩
    · exact Or.inr ⟨_, [], rfl, rfl⟩

theorem Complete.handling (h : l.Complete room es) (handled : Option Nat) :
    Complete room { l with handledDepth := handled } es :=
  ⟨h.written, h.left, h.lines, h.handled, h.errored⟩

/-- **A report keeps the echo complete.** -/
theorem Complete.hear (h : l.Complete room es) (r : Report) :
    (l.hear r).live.Complete room (es ++ (l.hear r).entries) := by
  rcases hear_cases l r with ⟨op, depth, handled, hop, hhear⟩ | ⟨handled, fs, hfs, hhear⟩
  · rw [hhear]
    exact (h.handling handled).emit hop depth
  · rw [hhear]
    obtain ⟨hwritten, hleft, hlines, hhandled, herrored⟩ := h.handling handled
    exact ⟨hwritten, hleft, by rw [echoedLines_append, hfs, List.append_nil]; exact hlines,
      hhandled, herrored⟩

theorem Complete.hearAll : ∀ (rs : List Report) {l : Live} {es : List Entry},
    l.Complete room es → (l.hearAll rs).live.Complete room (es ++ (l.hearAll rs).entries)
  | [], _, es, h => by
    rw [Live.hearAll, List.append_nil]
    exact h
  | r :: rs, l, es, h => by
    rcases hr : (l.hear r).breach with _ | b
    · rw [hearAll_cons_of_ok hr, ← List.append_assoc]
      exact Complete.hearAll rs (h.hear r)
    · rw [hearAll_cons_of_breach hr]
      exact h.hear r

end Live

/-- **The live echo is complete and never repeats.** After every list of notifications the text that
was passed on consists of all lines of the live translation, or, if the sink takes only so many
lines, of the first ones up to its room. No line is the comment of an operation that cannot be
expressed, and no label is noted, also if the options ask for a strict translation. -/
theorem live_echo_complete (config : Config) (room : Option Nat) (ns : List Notification) :
    ∃ l, ((Session.mk .empty (some (.new config room))).run ns).session.live = some l ∧
      unlines (echoedLines ((Session.mk .empty (some (.new config room))).run ns).entries) =
        unlines (takenLines room (l.translation.lines.map ScriptLine.render)) ∧
      (∀ line ∈ l.translation.lines, ∀ label qubits,
        line.primitive.instruction ≠ .unhandled label qubits) ∧
      l.translation.gatesErrored = [] := by
  obtain ⟨hlive, -, hlines⟩ := Session.run_of_watched ns .empty (.new config room)
  have hcomplete := Live.Complete.hearAll (Tracer.empty.watched ns) (Live.complete_new config room)
  rw [List.nil_append] at hcomplete
  refine ⟨_, hlive, by rw [hlines, hcomplete.lines], fun line hline label qubits hinstruction => ?_,
    hcomplete.errored⟩
  have hhandled := hcomplete.handled line hline
  rw [Primitive.isUnhandled, hinstruction] at hhandled
  cases hhandled

end CircuitTrace
