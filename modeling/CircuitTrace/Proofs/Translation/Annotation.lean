import CircuitTrace.Proofs.Translation.Cursor
import CircuitTrace.Proofs.Translation.Keys
import CircuitTrace.Proofs.Translation.Noted

/-! # Comments are annotation

The options decide whether the operations that cannot be expressed are written as comments. Such a
comment takes a line and a moment of its own, and that is all it does: two lenient walks that differ
in this go from stop to stop side by side, and the lines of the one without comments are those of
the other one when its comments for unhandled operations are taken away and the cursor steps that
they took are taken back (`withoutUnhandled`). Comments about the identity axis are written in both.

`Translation.Annotates` compares the two translations. Every part of a walk keeps it up
(`Annotates.write`, `Annotates.unhandled`, `Annotates.arrive`). -/

namespace CircuitTrace

/-- The options, with or without comments for the operations that cannot be expressed. -/
def Config.rendering (config : Config) (comments : Bool) : Config :=
  { config with renderUnhandled := comments }

/-- The line is the comment of an unhandled operation. -/
def ScriptLine.isUnhandled (l : ScriptLine) : Bool := l.primitive.isUnhandled

/-- The number of comments of unhandled operations among lines. -/
def unhandledCount (lines : List ScriptLine) : Nat := lines.countP ScriptLine.isUnhandled

/-- **Lines without the comments of unhandled operations**, each at a level that is lower by two for
every such comment that was in front of it; `before` of them stood in front of all the lines. -/
def withoutUnhandled (before : Nat) : List ScriptLine → List ScriptLine
  | [] => []
  | l :: lines =>
    if l.isUnhandled then withoutUnhandled (before + 1) lines
    else ⟨l.primitive, l.level - 2 * before⟩ :: withoutUnhandled before lines

theorem unhandledCount_append (lines more : List ScriptLine) :
    unhandledCount (lines ++ more) = unhandledCount lines + unhandledCount more :=
  List.countP_append

theorem withoutUnhandled_append (more : List ScriptLine) :
    ∀ (lines : List ScriptLine) (before : Nat),
    withoutUnhandled before (lines ++ more) =
      withoutUnhandled before lines ++ withoutUnhandled (before + unhandledCount lines) more
  | [], _ => rfl
  | l :: lines, before => by
    unfold unhandledCount
    rw [List.cons_append, withoutUnhandled, withoutUnhandled, List.countP_cons]
    split_ifs with h
    · rw [withoutUnhandled_append more lines, unhandledCount, Nat.add_right_comm, Nat.add_assoc]
    · rw [withoutUnhandled_append more lines, List.cons_append]
      rfl

/-- There are no more comments of unhandled operations than comments. -/
theorem unhandledCount_le (lines : List ScriptLine) :
    unhandledCount lines ≤ commentCount lines := by
  refine List.countP_mono_left fun l _ h => ?_
  unfold ScriptLine.isUnhandled Primitive.isUnhandled at h
  unfold ScriptLine.isComment Instruction.isComment
  split at h
  · next hinstruction =>
    rw [hinstruction]
    rfl
  · cases h

namespace Translation

/-- **A translation annotates another one**: it has collected the same, but for comments of
unhandled operations, and the cursor steps that these took. -/
structure Annotates (s t : Translation) : Prop where
  lenient : s.config.strict = false
  renders : s.config.renderUnhandled = true
  config : t.config = s.config.rendering false
  lines : t.lines = withoutUnhandled 0 s.lines
  cursor : s.cursor = t.cursor + 2 * unhandledCount s.lines
  gatesUsed : t.gatesUsed = s.gatesUsed
  gatesErrored : t.gatesErrored = s.gatesErrored
  measurementKey : t.measurementKey = s.measurementKey

theorem annotates_new (config : Config) :
    (new (config.leniently.rendering true)).Annotates (new (config.leniently.rendering false)) :=
  ⟨rfl, rfl, rfl, rfl, rfl, rfl, rfl, rfl⟩

namespace Annotates

variable {s t : Translation}

theorem reaching (h : s.Annotates t) (depth : Nat) :
    (s.reaching depth).Annotates (t.reaching depth) := by
  refine ⟨h.lenient, h.renders, h.config, h.lines, ?_, h.gatesUsed, h.gatesErrored,
    h.measurementKey⟩
  have hcursor := h.cursor
  unfold Translation.reaching
  simp only [h.config, Config.rendering]
  split_ifs <;> omega

theorem noting (h : s.Annotates t) (label : String) : (s.noting label).Annotates (t.noting label) :=
  ⟨h.lenient, h.renders, h.config, h.lines, h.cursor, h.gatesUsed,
    congrArg (noteOnce · label) h.gatesErrored, h.measurementKey⟩

/-- What is written in both translations. -/
theorem write (h : s.Annotates t) {p : Primitive} (hp : p.isUnhandled = false) :
    (s.write p).Annotates (t.write p) := by
  have hcursor := h.cursor
  have hunhandled : ∀ level, ScriptLine.isUnhandled ⟨p, level⟩ = false := fun _ => hp
  have hcount : unhandledCount (s.write p).lines = unhandledCount s.lines := by
    rw [lines_write, unhandledCount_append]
    simp [unhandledCount, hunhandled]
  have hlevel : s.levelFor p - 2 * unhandledCount s.lines = t.levelFor p := by
    unfold levelFor
    omega
  refine ⟨?_, ?_, ?_, ?_, ?_, ?_, ?_, ?_⟩
  · rw [config_write, h.lenient]
  · rw [config_write, h.renders]
  · rw [config_write, config_write, h.config]
  · rw [lines_write, lines_write, withoutUnhandled_append, ← h.lines]
    simp [withoutUnhandled, hunhandled, hlevel]
  · rw [cursor_write, cursor_write, hcount]
    split_ifs <;> omega
  · rw [gatesUsed_write, gatesUsed_write, h.gatesUsed]
  · rw [gatesErrored_write, gatesErrored_write, h.gatesErrored]
  · rw [measurementKey_write, measurementKey_write, h.measurementKey]

theorem writeAll : ∀ {ps : List Primitive}, (∀ p ∈ ps, p.isUnhandled = false) →
    ∀ {s t : Translation}, s.Annotates t → (s.writeAll ps).Annotates (t.writeAll ps)
  | [], _, _, _, h => h
  | p :: ps, hps, s, t, h => by
    have hp : (s.write p).Annotates (t.write p) := h.write (hps p List.mem_cons_self)
    exact writeAll (fun q hq => hps q (List.mem_cons_of_mem p hq)) hp

/-- The comment that only one of them writes. -/
theorem comment (h : s.Annotates t) (op : Operation) :
    (s.write op.unhandledPrimitive).Annotates t := by
  have hcursor := h.cursor
  have hunhandled : ∀ level, ScriptLine.isUnhandled ⟨op.unhandledPrimitive, level⟩ = true :=
    fun _ => rfl
  have hcount :
      unhandledCount (s.write op.unhandledPrimitive).lines = unhandledCount s.lines + 1 := by
    rw [lines_write, unhandledCount_append]
    simp [unhandledCount, hunhandled]
  have hmoved : (s.write op.unhandledPrimitive).cursor = s.cursor + 2 := rfl
  refine ⟨?_, ?_, ?_, ?_, ?_, ?_, ?_, ?_⟩
  · rw [config_write, h.lenient]
  · rw [config_write, h.renders]
  · rw [config_write, h.config]
  · rw [lines_write, withoutUnhandled_append, ← h.lines]
    simp [withoutUnhandled, hunhandled]
  · omega
  · rw [gatesUsed_write, h.gatesUsed]
    rfl
  · rw [gatesErrored_write, h.gatesErrored]
  · rw [measurementKey_write, h.measurementKey]
    rfl

theorem settle (h : s.Annotates t) (op : Operation) {key : Nat} :
    (s.settle (op.stopPrimitives key)).InStep Annotates (t.settle (op.stopPrimitives key)) := by
  rcases hprimitives : op.stopPrimitives key with halt | ps
  · exact ⟨rfl, h⟩
  · exact ⟨rfl, writeAll (Operation.isUnhandled_stopPrimitives hprimitives) h⟩

theorem unhandled (h : s.Annotates t) (op : Operation) :
    (s.unhandled op).InStep Annotates (t.unhandled op) := by
  have hnoted := h.noting op.gate
  have hlenient : t.config.strict = false := by rw [h.config]; exact h.lenient
  have hsilent : t.config.renderUnhandled = false := by rw [h.config]; rfl
  rw [unhandled_eq, unhandled_eq, h.lenient, h.renders, hlenient, hsilent]
  exact ⟨rfl, hnoted.comment op⟩

/-- **At every stop** one translation goes on annotating the other. -/
theorem arrive (h : s.Annotates t) (stop : Nat × Operation) :
    (Translation.arrive stop s).InStep Annotates (Translation.arrive stop t) := by
  obtain ⟨depth, op⟩ := stop
  by_cases hop : op.Unsupported
  · exact ((h.reaching depth).unhandled op).of_outcome (outcome_arrive_of_unsupported hop depth s)
      (outcome_arrive_of_unsupported hop depth t)
  · refine ((h.reaching depth).settle op).of_outcome
      (outcome_arrive_of_not_unsupported hop depth s) ?_
    rw [← h.measurementKey]
    exact outcome_arrive_of_not_unsupported hop depth t

end Annotates

end Translation

/-- **Comments of unhandled operations are annotation.** Lenient walks with and without them are
stopped by the same thing, if by anything, and use the same symbols, note the same labels and give
the same keys. The lines without them are the lines with them when the comments are taken away and
the level of every other line is lowered by two for each of them that was in front of it; so much
can be taken from every level. -/
theorem rendering_is_annotation (config : Config) (ops : List Operation) :
    let annotated := (Translation.new (config.leniently.rendering true)).visitAll ops
    let plain := (Translation.new (config.leniently.rendering false)).visitAll ops
    plain.halt = annotated.halt ∧
      plain.translation.gatesUsed = annotated.translation.gatesUsed ∧
      plain.translation.gatesErrored = annotated.translation.gatesErrored ∧
      plain.translation.measurementKey = annotated.translation.measurementKey ∧
      plain.translation.keys = annotated.translation.keys ∧
      plain.translation.lines = withoutUnhandled 0 annotated.translation.lines ∧
      ∀ i l, annotated.translation.lines[i]? = some l →
        2 * unhandledCount (annotated.translation.lines.take i) ≤ l.level := by
  intro annotated plain
  have hwalks : annotated.InStep Translation.Annotates plain := by
    simp only [annotated, plain, Translation.visitAll_eq_tour]
    exact Translation.inStep_tour (fun stop _ _ _ h => h.arrive stop)
      (Translation.annotates_new config)
  have hkeys : ∀ comments : Bool,
      let walk := (Translation.new (config.leniently.rendering comments)).visitAll ops
      walk.translation.keys = List.range walk.translation.measurementKey := fun _ =>
    Translation.stable_keys.visitAll rfl ops
  obtain ⟨-, -, -, hlines, -, hused, herrored, hkey⟩ := hwalks.translation
  refine ⟨hwalks.halt.symm, hused, herrored, hkey, ?_, hlines, fun i l hl => ?_⟩
  · rw [hkeys false, hkeys true]
    exact congrArg List.range hkey
  · -- the level of a line counts the comments in front of it
    obtain ⟨k, hk⟩ := Translation.exists_writes (List.getElem?_eq_some_iff.mp hl).1
    have hlevel : l.level = _ + 2 * commentCount (annotated.translation.lines.take i) + _ :=
      Translation.level_eq_of_writes hk hl
    have hcount := unhandledCount_le (annotated.translation.lines.take i)
    omega

end CircuitTrace
