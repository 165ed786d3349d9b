import CircuitTrace.Proofs.Translation.Keys
import CircuitTrace.Proofs.Translation.Symbols

/-! # Going on from any translation

What a walk writes does not depend on what was written before it, except for where it stands: the
cursor and the key of the next measurement go on from where they are, and a symbol or a label that
was noted before is not noted again. So a walk from any translation does what a walk from a new one
does, put behind what is there (`Translation.followedBy`). Every part of a walk respects this
(`write_followedBy`, `settle_followedBy`, `unhandled_followedBy`), hence every stop does
(`arrive_followedBy`) and every tour (`tour_followedBy`).

`visitList_continues` spells it out. It holds whether the walk comes to its end or is stopped, and
of every translation, those that walks lead to among them. -/

namespace CircuitTrace

/-- The line at a level higher by `levels`, and `keys` measurements later. -/
def ScriptLine.moved (levels keys : Nat) (l : ScriptLine) : ScriptLine :=
  ⟨l.primitive.later keys, levels + l.level⟩

/-! ### Texts without repetition -/

section NoteOnce

variable {ss ts : List String} {s : String}

theorem noteOnce_of_mem (h : s ∈ ss) : noteOnce ss s = ss :=
  if_pos (List.contains_iff_mem.mpr h)

theorem noteOnce_of_not_mem (h : s ∉ ss) : noteOnce ss s = ss ++ [s] :=
  if_neg (mt List.contains_iff_mem.mp h)

theorem nodup_noteOnce (h : ss.Nodup) (s : String) : (noteOnce ss s).Nodup := by
  by_cases hs : s ∈ ss
  · rw [noteOnce_of_mem hs]
    exact h
  · rw [noteOnce_of_not_mem hs]
    exact List.nodup_append.mpr ⟨h, List.nodup_singleton s, by grind⟩

/-- **Noting is associative**: what was noted last of one list is noted last of both. -/
theorem foldl_noteOnce_noteOnce (ss ts : List String) (s : String) :
    (noteOnce ts s).foldl noteOnce ss = noteOnce (ts.foldl noteOnce ss) s := by
  by_cases hs : s ∈ ts
  · have hmem : s ∈ ts.foldl noteOnce ss := mem_foldl_noteOnce.mpr (Or.inr hs)
    rw [noteOnce_of_mem hs, noteOnce_of_mem hmem]
  · rw [noteOnce_of_not_mem hs, List.foldl_append]
    rfl

/-- Texts without repetition are noted unless they were there. -/
theorem foldl_noteOnce_of_nodup : ∀ {ts : List String}, ts.Nodup → ∀ ss : List String,
    ts.foldl noteOnce ss = ss ++ ts.filter fun s => s ∉ ss
  | [], _, ss => (List.append_nil ss).symm
  | t :: ts, h, ss => by
    obtain ⟨ht, hts⟩ := List.nodup_cons.mp h
    rw [List.foldl_cons, foldl_noteOnce_of_nodup hts]
    by_cases hmem : t ∈ ss
    · rw [noteOnce_of_mem hmem, List.filter_cons_of_neg (by simpa using hmem)]
    · have hrest : (ts.filter fun s => s ∉ ss ++ [t]) = ts.filter fun s => s ∉ ss := by
        refine List.filter_congr fun s hs => ?_
        have hne : s ≠ t := fun heq => ht (heq ▸ hs)
        simp [hne]
      rw [noteOnce_of_not_mem hmem, hrest, List.filter_cons_of_pos (by simpa using hmem),
        List.append_assoc, List.singleton_append]

end NoteOnce

namespace Translation

/-- The notes are without repetition. -/
theorem stable_nodup_notes : Stable fun t => t.gatesUsed.Nodup ∧ t.gatesErrored.Nodup := by
  refine Stable.of_write (fun _ h => h) (fun t p h => ?_) fun t label h =>
    ⟨h.1, nodup_noteOnce h.2 label⟩
  rw [gatesUsed_write, gatesErrored_write]
  rcases p.instruction.symbol? with _ | symbol
  · exact h
  · exact ⟨nodup_noteOnce h.1 symbol, h.2⟩

/-! ### One translation behind another -/

/-- **What another translation has collected, put behind this one.** -/
def followedBy (s t : Translation) : Translation where
  config := s.config
  lines := s.lines ++ t.lines.map (ScriptLine.moved s.cursor s.measurementKey)
  gatesUsed := t.gatesUsed.foldl noteOnce s.gatesUsed
  gatesErrored := t.gatesErrored.foldl noteOnce s.gatesErrored
  cursor := s.cursor + t.cursor
  measurementKey := s.measurementKey + t.measurementKey

/-- Nothing is put behind by a new translation. -/
theorem followedBy_new (s : Translation) : s.followedBy (new s.config) = s := by
  simp [followedBy, new]

theorem reaching_followedBy {s t : Translation} (h : t.config = s.config) (depth : Nat) :
    (s.followedBy t).reaching depth = s.followedBy (t.reaching depth) := by
  unfold reaching followedBy
  simp only [h]
  split_ifs <;> rfl

theorem write_followedBy (s t : Translation) (p : Primitive) :
    (s.followedBy t).write (p.later s.measurementKey) = s.followedBy (t.write p) := by
  have hsymbol : (p.later s.measurementKey).instruction.symbol? = p.instruction.symbol? :=
    Instruction.symbol?_later _ _
  have hkey : nextKey (s.measurementKey + t.measurementKey)
      (p.later s.measurementKey).instruction =
        s.measurementKey + nextKey t.measurementKey p.instruction :=
    Instruction.nextKey_later _ _ _
  unfold write
  rw [hsymbol]
  rcases p.instruction.symbol? with _ | symbol
  · simp [followedBy, ScriptLine.moved, hkey, Nat.add_assoc]
  · simp [followedBy, ScriptLine.moved, hkey, foldl_noteOnce_noteOnce]

theorem writeAll_followedBy (s : Translation) : ∀ (ps : List Primitive) (t : Translation),
    (s.followedBy t).writeAll (ps.map (Primitive.later s.measurementKey)) =
      s.followedBy (t.writeAll ps)
  | [], _ => rfl
  | p :: ps, t => by
    have hrest := writeAll_followedBy s ps (t.write p)
    rw [← write_followedBy] at hrest
    exact hrest

theorem noting_followedBy (s t : Translation) (label : String) :
    (s.followedBy t).noting label = s.followedBy (t.noting label) := by
  simp [noting, followedBy, foldl_noteOnce_noteOnce]

/-- **One translation has been put behind `s`, and the other has not.** -/
structure Follows (s u t : Translation) : Prop where
  config : t.config = s.config
  eq : u = s.followedBy t

variable {s u t : Translation}

theorem Follows.settle (h : s.Follows u t) (r : Except Halt (List Primitive)) :
    (u.settle (r.map (List.map (Primitive.later s.measurementKey)))).InStep s.Follows
      (t.settle r) := by
  obtain ⟨hconfig, rfl⟩ := h
  rcases r with halt | ps
  · exact ⟨rfl, hconfig, rfl⟩
  · exact ⟨rfl, (config_writeAll ps t).trans hconfig, writeAll_followedBy s ps t⟩

theorem Follows.unhandled (h : s.Follows u t) (op : Operation) :
    (u.unhandled op).InStep s.Follows (t.unhandled op) := by
  obtain ⟨hconfig, rfl⟩ := h
  have hwrite : (s.followedBy (t.noting op.gate)).write op.unhandledPrimitive =
      s.followedBy ((t.noting op.gate).write op.unhandledPrimitive) :=
    write_followedBy s (t.noting op.gate) op.unhandledPrimitive
  have hsame : (s.followedBy t).config = t.config := hconfig.symm
  rw [unhandled_eq, unhandled_eq, noting_followedBy, hsame]
  split_ifs
  · exact ⟨rfl, hconfig, rfl⟩
  · exact ⟨rfl, (config_write _ _).trans hconfig, hwrite⟩
  · exact ⟨rfl, hconfig, rfl⟩

/-- **At every stop** one translation stays put behind `s`. -/
theorem Follows.arrive (h : s.Follows u t) (stop : Nat × Operation) :
    (arrive stop u).InStep s.Follows (arrive stop t) := by
  obtain ⟨depth, op⟩ := stop
  have hreaching : s.Follows (u.reaching depth) (t.reaching depth) := by
    obtain ⟨hconfig, rfl⟩ := h
    exact ⟨hconfig, reaching_followedBy hconfig depth⟩
  by_cases hop : op.Unsupported
  · exact (hreaching.unhandled op).of_outcome (outcome_arrive_of_unsupported hop depth u)
      (outcome_arrive_of_unsupported hop depth t)
  · have hkey : u.measurementKey = s.measurementKey + t.measurementKey := by rw [h.eq]; rfl
    refine (hreaching.settle (op.stopPrimitives t.measurementKey)).of_outcome ?_
      (outcome_arrive_of_not_unsupported hop depth t)
    rw [← Operation.stopPrimitives_later, ← hkey]
    exact outcome_arrive_of_not_unsupported hop depth u

/-- **A walk goes on from any translation as from a new one.** It is stopped by what stops the walk
from a new translation. It adds the lines of that walk, at levels that are higher by where the
cursor was and under keys that are later by the measurements before; the cursor and the key of the
next measurement move on as they do there; and of the symbols and the labels that are noted there,
those are added that were not noted before. -/
theorem visitList_continues (s : Translation) (callerDepth : Nat) (ops : List Operation) :
    let walk := visitList callerDepth ops s
    let fresh := visitList callerDepth ops (new s.config)
    walk.halt = fresh.halt ∧
      walk.translation.lines = s.lines ++
        fresh.translation.lines.map (ScriptLine.moved s.cursor s.measurementKey) ∧
      walk.translation.cursor = s.cursor + fresh.translation.cursor ∧
      walk.translation.measurementKey = s.measurementKey + fresh.translation.measurementKey ∧
      walk.translation.gatesUsed = s.gatesUsed ++
        fresh.translation.gatesUsed.filter (fun symbol => symbol ∉ s.gatesUsed) ∧
      walk.translation.gatesErrored = s.gatesErrored ++
        fresh.translation.gatesErrored.filter fun label => label ∉ s.gatesErrored := by
  intro walk fresh
  have hstart : s.Follows s (new s.config) := ⟨rfl, (followedBy_new s).symm⟩
  have hwalks : walk.InStep s.Follows fresh := by
    simp only [walk, fresh, visitList_eq_tour]
    exact inStep_tour (fun stop _ _ _ h => h.arrive stop) hstart
  have hnodup : fresh.translation.gatesUsed.Nodup ∧ fresh.translation.gatesErrored.Nodup :=
    stable_nodup_notes.visitList ops callerDepth ⟨List.nodup_nil, List.nodup_nil⟩
  refine ⟨hwalks.halt, ?_⟩
  rw [hwalks.translation.eq]
  exact ⟨rfl, rfl, rfl, foldl_noteOnce_of_nodup hnodup.1 _, foldl_noteOnce_of_nodup hnodup.2 _⟩

end Translation

end CircuitTrace
