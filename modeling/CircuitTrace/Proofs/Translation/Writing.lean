import CircuitTrace.Translation.Basic

/-! # What a walk writes

Levels aside, the lines of a translation are its *primitives* (`Translation.primitives`). Writing
puts primitives behind those that are there and moves the measurement key on
(`primitives_writeAll`, `measurementKey_writeAll`); nothing else of the key or of the lines depends
on the cursor. Settling the primitives of an operation loses nothing: two results that leave the
same walk are the same (`settle_eq_settle_iff`).

A visit first enters the operation, which touches the cursor alone, and then does one of three
things (`visit_of_classify`, `visit_of_children`, `visit_of_childless`). -/

namespace CircuitTrace

/-- The key of the next measurement after primitives. -/
def keyAfter (key : Nat) (ps : List Primitive) : Nat :=
  ps.foldl (fun key p => Translation.nextKey key p.instruction) key

@[simp] theorem keyAfter_nil (key : Nat) : keyAfter key [] = key := rfl

theorem keyAfter_append (key : Nat) (ps qs : List Primitive) :
    keyAfter key (ps ++ qs) = keyAfter (keyAfter key ps) qs := by
  unfold keyAfter; rw [List.foldl_append]

namespace Walk

theorem andThen_of_halt {w : Walk} {h : Halt} (hw : w.halt = some h)
    (next : Translation → Walk) : w.andThen next = w := by
  unfold andThen; rw [hw]

theorem andThen_of_ok {w : Walk} (hw : w.halt = none) (next : Translation → Walk) :
    w.andThen next =
      { next w.translation with records := w.records ++ (next w.translation).records } := by
  unfold andThen; rw [hw]

/-- Two walks one after the other come to their end only if both do. -/
theorem halt_of_andThen {w : Walk} {next : Translation → Walk}
    (h : (w.andThen next).halt = none) : w.halt = none ∧ (next w.translation).halt = none := by
  rcases hw : w.halt with _ | halt
  · rw [andThen_of_ok hw] at h
    exact ⟨rfl, h⟩
  · rw [andThen_of_halt hw, hw] at h
    cases h

end Walk

namespace Translation

/-- The primitives of the lines, in order. -/
def primitives (t : Translation) : List Primitive := t.lines.map ScriptLine.primitive

/-! ### Writing -/

@[simp] theorem config_write (t : Translation) (p : Primitive) : (t.write p).config = t.config := by
  unfold write; split <;> rfl

theorem exists_lines_write (t : Translation) (p : Primitive) :
    ∃ level, (t.write p).lines = t.lines ++ [⟨p, level⟩] := by
  unfold write
  split
  · exact ⟨t.cursor + 1, rfl⟩
  · exact ⟨t.cursor, rfl⟩

@[simp] theorem measurementKey_write (t : Translation) (p : Primitive) :
    (t.write p).measurementKey = nextKey t.measurementKey p.instruction := by
  unfold write; split <;> rfl

@[simp] theorem config_writeAll : ∀ (ps : List Primitive) (t : Translation),
    (t.writeAll ps).config = t.config
  | [], _ => rfl
  | p :: ps, t => (config_writeAll ps (t.write p)).trans (config_write t p)

/-- The lines that are written stand behind those that were there. -/
theorem exists_lines_writeAll : ∀ (ps : List Primitive) (t : Translation),
    ∃ new, (t.writeAll ps).lines = t.lines ++ new ∧ new.map ScriptLine.primitive = ps
  | [], _ => ⟨[], by simp [writeAll], rfl⟩
  | p :: ps, t => by
    obtain ⟨level, hp⟩ := exists_lines_write t p
    obtain ⟨new, hnew, hmap⟩ := exists_lines_writeAll ps (t.write p)
    refine ⟨⟨p, level⟩ :: new, ?_, by rw [List.map_cons, hmap]⟩
    have hstep : t.writeAll (p :: ps) = (t.write p).writeAll ps := rfl
    rw [hstep, hnew, hp, List.append_assoc, List.singleton_append]

@[simp] theorem primitives_writeAll (ps : List Primitive) (t : Translation) :
    (t.writeAll ps).primitives = t.primitives ++ ps := by
  obtain ⟨new, hnew, hmap⟩ := exists_lines_writeAll ps t
  unfold primitives; rw [hnew, List.map_append, hmap]

@[simp] theorem measurementKey_writeAll : ∀ (ps : List Primitive) (t : Translation),
    (t.writeAll ps).measurementKey = keyAfter t.measurementKey ps
  | [], _ => rfl
  | p :: ps, t => by
    have hstep : t.writeAll (p :: ps) = (t.write p).writeAll ps := rfl
    rw [hstep, measurementKey_writeAll ps, measurementKey_write]
    rfl

/-! ### Settling -/

theorem settle_ok (t : Translation) (ps : List Primitive) :
    t.settle (.ok ps) = ⟨t.writeAll ps, [], none⟩ := rfl

theorem settle_error (t : Translation) (h : Halt) : t.settle (.error h) = ⟨t, [], some h⟩ := rfl

/-- **Settling loses nothing.** -/
theorem settle_eq_settle_iff {t : Translation} {r s : Except Halt (List Primitive)} :
    ((t.settle r).halt = (t.settle s).halt ∧ (t.settle r).translation = (t.settle s).translation) ↔
      r = s := by
  refine ⟨fun ⟨hh, ht⟩ => ?_, fun h => by rw [h]; exact ⟨rfl, rfl⟩⟩
  rcases r with e | ps <;> rcases s with f | qs
  · rw [settle_error, settle_error] at hh
    rw [Option.some.inj hh]
  · rw [settle_error, settle_ok] at hh
    cases hh
  · rw [settle_error, settle_ok] at hh
    cases hh
  · have hp := congrArg primitives ht
    rw [settle_ok, settle_ok, primitives_writeAll, primitives_writeAll,
      List.append_cancel_left_eq] at hp
    rw [hp]

@[simp] theorem halt_decompose (t : Translation) (op : Operation) (cls : GateClass) :
    (t.decompose op cls).halt = (t.settle (op.classPrimitives t.measurementKey cls)).halt := by
  unfold decompose; split <;> rfl

@[simp] theorem translation_decompose (t : Translation) (op : Operation) (cls : GateClass) :
    (t.decompose op cls).translation =
      (t.settle (op.classPrimitives t.measurementKey cls)).translation := by
  unfold decompose; split <;> rfl

/-! ### Visiting -/

@[simp] theorem halt_enter (t : Translation) (op : Operation) (depth : Nat) :
    (t.enter op depth).halt = none := rfl

theorem visit_of_classify {op : Operation} {cls : GateClass}
    (h : GateClass.classify op.gate = some cls) (callerDepth : Nat) (t : Translation) :
    visit callerDepth op t =
      (t.enter op (callerDepth + 1)).andThen fun t => t.decompose op cls := by
  cases op
  simp only [visit, h]

theorem visit_of_children {op : Operation} {ops : List Operation}
    (h : GateClass.classify op.gate = none) (hc : op.children = some ops) (callerDepth : Nat)
    (t : Translation) :
    visit callerDepth op t =
      (t.enter op (callerDepth + 1)).andThen fun t => visitList (callerDepth + 1) ops t := by
  cases op
  subst hc
  simp only [visit, h, visitCalls]

theorem visit_of_childless {op : Operation} (h : GateClass.classify op.gate = none)
    (hc : op.children = none) (callerDepth : Nat) (t : Translation) :
    visit callerDepth op t =
      (t.enter op (callerDepth + 1)).andThen fun t => t.childless op := by
  cases op
  subst hc
  simp only [visit, h, visitCalls]

end Translation

end CircuitTrace
