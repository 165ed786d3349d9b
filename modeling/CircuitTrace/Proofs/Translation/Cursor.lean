import CircuitTrace.Proofs.Translation.Depth

/-! # Levels in closed form

The level of a line is read off a cursor that moves all through a walk. It can be said without the
walk: the cursor has counted the stops so far that are high enough in the forest
(`countedStops`), and twice the comments so far (`commentCount`), and a comment stands one above the
cursor.

* `cursor_tour`: what the cursor has counted when a tour has come to its end.
* `Translation.Metered`: from one stop on no more stops are counted, so all lines that are written
  there have levels with the same count of stops. Writing a line keeps this up (`Metered.write`).
* `level_eq_of_writes`: the level of the `i`-th line, which the `k`-th stop has written;
  `level_eq_counted` adds that there is such a stop.

The walk need not come to its end: a stop that writes a line is one that the walk has come to. -/

namespace CircuitTrace

/-- The number of comments among lines. -/
def commentCount (lines : List ScriptLine) : Nat := lines.countP ScriptLine.isComment

/-- The number of stops that move the cursor on under a depth in the options. -/
def countedStops (depth : Nat) (stops : List (Nat × Operation)) : Nat :=
  stops.countP fun stop => decide (stop.1 ≤ depth)

theorem commentCount_append (lines more : List ScriptLine) :
    commentCount (lines ++ more) = commentCount lines + commentCount more :=
  List.countP_append

theorem commentCount_singleton (l : ScriptLine) :
    commentCount [l] = if l.isComment then 1 else 0 := by
  simp [commentCount, List.countP_cons]

theorem countedStops_cons (depth : Nat) (stop : Nat × Operation)
    (stops : List (Nat × Operation)) :
    countedStops depth (stop :: stops) =
      (if stop.1 ≤ depth then 1 else 0) + countedStops depth stops := by
  simp [countedStops, List.countP_cons, Nat.add_comm]

theorem countedStops_append (depth : Nat) (stops stops' : List (Nat × Operation)) :
    countedStops depth (stops ++ stops') = countedStops depth stops + countedStops depth stops' :=
  List.countP_append

namespace Translation

/-! ### What the cursor counts -/

/-- **A translation is metered** since its line `since` with a count of stops: the cursor has moved
on for each of these stops and twice for each comment, and so has the level of every line from that
one on, by the comments in front of it. -/
structure Metered (count since : Nat) (t : Translation) : Prop where
  /-- What the cursor has counted. -/
  cursor : t.cursor = count + 2 * commentCount t.lines
  /-- What the levels have counted. -/
  level : ∀ i l, since ≤ i → t.lines[i]? = some l →
    l.level = count + 2 * commentCount (t.lines.take i) + if l.isComment then 1 else 0

/-- Nothing has been written since the last line. -/
theorem metered_of_cursor {count : Nat} {t : Translation}
    (h : t.cursor = count + 2 * commentCount t.lines) : Metered count t.lines.length t := by
  refine ⟨h, fun i l hi hl => ?_⟩
  have hlt : i < t.lines.length := (List.getElem?_eq_some_iff.mp hl).1
  omega

/-- A stop is counted if it is high enough. -/
theorem cursor_reaching {count : Nat} {t : Translation}
    (h : t.cursor = count + 2 * commentCount t.lines) (depth : Nat) :
    (t.reaching depth).cursor =
      (count + if depth ≤ t.config.depth then 1 else 0) + 2 * commentCount t.lines := by
  show (if depth ≤ t.config.depth then t.cursor + 1 else t.cursor) = _
  split_ifs <;> omega

section Metered

variable {count since : Nat} {t : Translation}

/-- **A line that is written is metered.** -/
theorem Metered.write (h : Metered count since t) (p : Primitive) :
    Metered count since (t.write p) := by
  have hcursor := h.cursor
  have hcomment : ScriptLine.isComment ⟨p, t.levelFor p⟩ = p.instruction.isComment := rfl
  constructor
  · rw [cursor_write, lines_write, commentCount_append, commentCount_singleton, hcomment]
    split_ifs <;> omega
  · intro i l hi hl
    rw [lines_write] at hl ⊢
    by_cases hlast : i < t.lines.length
    · rw [List.getElem?_append_left hlast] at hl
      rw [List.take_append_of_le_length hlast.le]
      exact h.level i l hi hl
    · obtain ⟨hbound, -⟩ := List.getElem?_eq_some_iff.mp hl
      have hlength : i = t.lines.length := by
        simp only [List.length_append, List.length_singleton] at hbound
        omega
      subst hlength
      rw [List.getElem?_concat_length, Option.some.injEq] at hl
      subst hl
      rw [List.take_left, hcomment]
      show t.cursor + _ = _
      omega

theorem Metered.writeAll (ps : List Primitive) :
    ∀ {t : Translation}, Metered count since t → Metered count since (t.writeAll ps) := by
  induction ps with
  | nil => exact fun h => h
  | cons p ps ih => exact fun h => ih (h.write p)

theorem Metered.noting (h : Metered count since t) (label : String) :
    Metered count since (t.noting label) :=
  ⟨h.cursor, h.level⟩

/-- **What is written at a stop is metered**, the stop being counted. -/
theorem metered_arrive (stop : Nat × Operation) (h : Metered count since (t.reaching stop.1)) :
    Metered count since (arrive stop t).translation := by
  obtain ⟨depth, op⟩ := stop
  by_cases hop : op.Unsupported
  · rw [(Prod.mk.inj (outcome_arrive_of_unsupported hop depth t)).1, unhandled_eq]
    have hnoted := h.noting op.gate
    split_ifs
    · exact hnoted
    · exact hnoted.write op.unhandledPrimitive
    · exact hnoted
  · rw [(Prod.mk.inj (outcome_arrive_of_not_unsupported hop depth t)).1]
    rcases op.stopPrimitives t.measurementKey with halt | ps
    · exact h
    · exact h.writeAll ps

/-- **What the cursor has counted at the end of a tour.** -/
theorem cursor_tour : ∀ (stops : List (Nat × Operation)) {count : Nat} {t : Translation},
    (tour stops t).halt = none → t.cursor = count + 2 * commentCount t.lines →
    (tour stops t).translation.cursor =
      count + countedStops t.config.depth stops +
        2 * commentCount (tour stops t).translation.lines
  | [], _, _, _, h => h
  | stop :: stops, count, t, hhalt, h => by
    rw [tour] at hhalt ⊢
    obtain ⟨hlast, hmore⟩ := Walk.halt_of_andThen hhalt
    have hstop := (metered_arrive stop (metered_of_cursor (cursor_reaching h stop.1))).cursor
    have hrest := cursor_tour stops hmore hstop
    rw [config_arrive] at hrest
    rw [Walk.andThen_of_ok hlast, countedStops_cons]
    simp only [hrest]
    omega

end Metered

/-! ### The levels of a script -/

variable {config : Config} {ops : List Operation} {k i : Nat} {l : ScriptLine}

/-- **The level of a line in closed form**: the stops so far that are high enough, that of the line
included, and twice the comments in front of it, and one more if it is a comment. -/
theorem level_eq_of_writes (hwrites : Writes config ops k i)
    (hl : ((new config).visitAll ops).translation.lines[i]? = some l) :
    l.level = countedStops config.depth ((Operation.stopsAll 1 ops).take (k + 1)) +
      2 * commentCount (((new config).visitAll ops).translation.lines.take i) +
        if l.isComment then 1 else 0 := by
  obtain ⟨stop, hstop, hhalt, harrive⟩ := exists_arrive_of_writes hwrites
  have hconfig : (upTo config ops k).translation.config = config := config_tour _ _
  have hcursor : (upTo config ops k).translation.cursor =
      countedStops config.depth ((Operation.stopsAll 1 ops).take k) +
        2 * commentCount (upTo config ops k).translation.lines := by
    have hnew : (new config).cursor = 0 + 2 * commentCount (new config).lines := rfl
    have htour := cursor_tour ((Operation.stopsAll 1 ops).take k) hhalt hnew
    rw [Nat.zero_add] at htour
    exact htour
  have hcount : countedStops config.depth ((Operation.stopsAll 1 ops).take (k + 1)) =
      countedStops config.depth ((Operation.stopsAll 1 ops).take k) +
        if stop.1 ≤ config.depth then 1 else 0 := by
    rw [List.take_add_one, hstop, Option.toList_some, countedStops_append, countedStops_cons]
    rfl
  have hreaching := cursor_reaching hcursor stop.1
  rw [hconfig, ← hcount] at hreaching
  have hmetered := metered_arrive stop (metered_of_cursor hreaching)
  rw [← harrive] at hmetered
  -- the line and those in front of it are there when the stop has been left
  have hline := hmetered.level i l hwrites.1 ((getElem?_upTo hwrites.2).trans hl)
  have htake : (upTo config ops (k + 1)).translation.lines.take i =
      ((new config).visitAll ops).translation.lines.take i := by
    obtain ⟨rest, hrest⟩ : (upTo config ops (k + 1)).translation.lines <+:
        ((new config).visitAll ops).translation.lines := prefix_visitAll (k + 1)
    rw [← hrest, List.take_append_of_le_length hwrites.2.le]
  rw [htake] at hline
  exact hline

/-- **The levels of lines in closed form.** Every line is written by an operation that the walk comes
to. Its level is the number of operations that the walk has come to by then, this one included, that
stand no deeper in the forest than the options say, and twice the number of comments in front of the
line, and one more if the line is a comment itself. This holds for a walk that is stopped, too. -/
theorem level_eq_counted (config : Config) (ops : List Operation) (i : Nat) (l : ScriptLine)
    (hl : ((new config).visitAll ops).translation.lines[i]? = some l) :
    (∃ k stop, (Operation.stopsAll 1 ops)[k]? = some stop ∧ Writes config ops k i) ∧
      ∀ k, Writes config ops k i →
        l.level = countedStops config.depth ((Operation.stopsAll 1 ops).take (k + 1)) +
          2 * commentCount (((new config).visitAll ops).translation.lines.take i) +
            if l.isComment then 1 else 0 := by
  constructor
  · obtain ⟨k, hk⟩ := exists_writes (List.getElem?_eq_some_iff.mp hl).1
    obtain ⟨stop, hstop, -⟩ := exists_arrive_of_writes hk
    exact ⟨k, stop, hstop, hk⟩
  · exact fun k hk => level_eq_of_writes hk hl

/-- Two gates below a call, which share a level, then a gate, a call that cannot be expressed and
another gate: the last one is the seventh stop and the fifth that is counted, behind one comment. -/
theorem level_eq_counted_of_seven :
    let gate : String → Nat → Operation := fun label q =>
      { Operation.ofGate label with targets := [.qubit q] }
    let ops : List Operation := [{ Operation.ofGate "Main" with
      children := some [
        { Operation.ofGate "Prepare" with children := some [gate "H" 0, gate "H" 1] },
        gate "X" 0, gate "Foo" 1, gate "Y" 1] }]
    let lines := ((new .default).visitAll ops).translation.lines
    lines.map ScriptLine.level = [2, 2, 3, 5, 7] ∧ commentCount (lines.take 4) = 1 ∧
      (∃ k stop, (Operation.stopsAll 1 ops)[k]? = some stop ∧ Writes .default ops k 4) ∧
      ∀ k, Writes .default ops k 4 →
        7 = countedStops 2 ((Operation.stopsAll 1 ops).take (k + 1)) +
          2 * commentCount (lines.take 4) + 0 := by
  intro gate ops lines
  have hline : lines[4]? = some ⟨.gate "Y" [1] [], 7⟩ := by decide +kernel
  obtain ⟨hwriter, hlevel⟩ := level_eq_counted .default ops 4 _ hline
  exact ⟨by decide +kernel, by decide +kernel, hwriter, hlevel⟩

end Translation

end CircuitTrace
