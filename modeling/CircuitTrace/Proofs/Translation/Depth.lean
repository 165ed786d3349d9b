import CircuitTrace.Proofs.Translation.Levels
import CircuitTrace.Proofs.Translation.Tour

/-! # Depths and moments

The depth in the options says which of the operations that a walk comes to move its cursor on. It
decides about levels, and about nothing else. Walks at two depths go from stop to stop side by side,
and a translation at the higher depth `Splits` the moments of the other one: its cursor moves on
whenever the other one's does, so where its level stays the other level stays as well. Every part of
a walk keeps this up (`Splits.arrive`). Since levels never go down, the lines of one moment are
those of one level (`sharesMoment_iff`), and lines that share a moment at the higher depth share one
at the lower depth (`Splits.sharesMoment`).

A walk comes to no operation below the height of the forest (`depth_lt_of_mem_stopsAll`). If the
depth is not less than that, the cursor moves on at every stop, and what is written there is above
all that was written before (`level_lt_of_writes`). So no moment has lines of two operations.

Lines and operations are told apart by their places in the script and in the walk: operations that
look the same may write lines that look the same. -/

namespace CircuitTrace

/-- The options with another depth. -/
def Config.atDepth (config : Config) (depth : Nat) : Config := { config with depth := depth }

/-! ### Counts -/

/-- **The `k`-th step of a count passes a number**: it was not counted before, and it is then. -/
def Passes (count : Nat → Nat) (k i : Nat) : Prop := count k ≤ i ∧ i < count (k + 1)

theorem exists_passes (count : Nat → Nat) {i : Nat} (hzero : count 0 ≤ i) :
    ∀ {n : Nat}, i < count n → ∃ k < n, Passes count k i
  | 0, h => absurd hzero (Nat.not_le_of_lt h)
  | n + 1, h => by
    by_cases hn : i < count n
    · obtain ⟨k, hk, hpasses⟩ := exists_passes count hzero hn
      exact ⟨k, Nat.lt_succ_of_lt hk, hpasses⟩
    · exact ⟨n, Nat.lt_succ_self n, Nat.le_of_not_lt hn, h⟩

/-! ### Lines of one moment -/

section Moments

variable {lines : List ScriptLine} {i j k : Nat}

/-- The number of lines in the first `k` moments. -/
def momentsEnd (lines : List ScriptLine) (k : Nat) : Nat := ((moments lines).take k).flatten.length

/-- **Two lines share a moment**, by their numbers. -/
def SharesMoment (lines : List ScriptLine) (i j : Nat) : Prop :=
  ∃ k, Passes (momentsEnd lines) k i ∧ Passes (momentsEnd lines) k j

/-- The lines in front of a moment, in it and behind it. -/
theorem lines_eq_of_moment {m : List ScriptLine} (hm : (moments lines)[k]? = some m) :
    lines = ((moments lines).take k).flatten ++
      (m ++ ((moments lines).drop (k + 1)).flatten) := by
  calc lines = (moments lines).flatten := (List.flatten_splitBy _ lines).symm
    _ = ((moments lines).take k ++ (moments lines).drop k).flatten := by
        rw [List.take_append_drop]
    _ = _ := by
        rw [List.drop_eq_getElem?_toList_append, hm, List.flatten_append, Option.toList_some,
          List.singleton_append, List.flatten_cons]

/-- A line and the moment that it is in. -/
theorem exists_line_of_passes (h : Passes (momentsEnd lines) k i) :
    ∃ m l, (moments lines)[k]? = some m ∧ l ∈ m ∧ lines[i]? = some l := by
  obtain ⟨hle, hlt⟩ := h
  unfold momentsEnd at hle hlt
  rw [List.take_add_one, List.flatten_append, List.length_append] at hlt
  rcases hm : (moments lines)[k]? with _ | m <;> rw [hm] at hlt
  · simp only [Option.toList_none, List.flatten_nil, List.length_nil] at hlt
    omega
  · simp only [Option.toList_some, List.flatten_singleton] at hlt
    have hi : i - ((moments lines).take k).flatten.length < m.length := by omega
    refine ⟨m, m[i - ((moments lines).take k).flatten.length], rfl, List.getElem_mem hi, ?_⟩
    calc lines[i]? = (((moments lines).take k).flatten ++
            (m ++ ((moments lines).drop (k + 1)).flatten))[i]? :=
          congrArg (·[i]?) (lines_eq_of_moment hm)
      _ = m[i - ((moments lines).take k).flatten.length]? := by
          rw [List.getElem?_append_right hle, List.getElem?_append_left hi]
      _ = some m[i - ((moments lines).take k).flatten.length] := List.getElem?_eq_getElem hi

/-- Every line is in a moment. -/
theorem exists_passes_momentsEnd (h : i < lines.length) : ∃ k, Passes (momentsEnd lines) k i := by
  have hlast : momentsEnd lines (moments lines).length = lines.length := by
    unfold momentsEnd
    rw [List.take_length]
    exact congrArg List.length (List.flatten_splitBy _ lines)
  obtain ⟨k, -, hpasses⟩ := exists_passes (momentsEnd lines) (Nat.zero_le i)
    (n := (moments lines).length) (by omega)
  exact ⟨k, hpasses⟩

/-- The lines of an earlier moment are at a lower level. -/
theorem level_lt_of_moments (h : lines.Pairwise ScriptLine.Precedes) {m n : List ScriptLine}
    {a b : ScriptLine} (hm : (moments lines)[i]? = some m) (hn : (moments lines)[j]? = some n)
    (ha : a ∈ m) (hb : b ∈ n) (hij : i < j) : a.level < b.level := by
  obtain ⟨hi, rfl⟩ := List.getElem?_eq_some_iff.mp hm
  obtain ⟨hj, rfl⟩ := List.getElem?_eq_some_iff.mp hn
  exact List.pairwise_iff_getElem.mp (pairwise_lt_moments h) i j hi hj hij a ha b hb

/-- **The lines of one moment are those of one level.** -/
theorem sharesMoment_iff (h : lines.Pairwise ScriptLine.Precedes) :
    SharesMoment lines i j ↔
      ∃ a b, lines[i]? = some a ∧ lines[j]? = some b ∧ a.level = b.level := by
  constructor
  · rintro ⟨k, hi, hj⟩
    obtain ⟨m, a, hm, ha, hai⟩ := exists_line_of_passes hi
    obtain ⟨m', b, hm', hb, hbj⟩ := exists_line_of_passes hj
    obtain rfl : m' = m := Option.some.inj (hm'.symm.trans hm)
    exact ⟨a, b, hai, hbj, level_eq_of_mem_moments (List.mem_of_getElem? hm) ha hb⟩
  · rintro ⟨a, b, hai, hbj, hlevel⟩
    obtain ⟨k, hk⟩ := exists_passes_momentsEnd (List.getElem?_eq_some_iff.mp hai).1
    obtain ⟨l, hl⟩ := exists_passes_momentsEnd (List.getElem?_eq_some_iff.mp hbj).1
    obtain ⟨m, a', hm, ha, hai'⟩ := exists_line_of_passes hk
    obtain ⟨n, b', hn, hb, hbj'⟩ := exists_line_of_passes hl
    obtain rfl : a' = a := Option.some.inj (hai'.symm.trans hai)
    obtain rfl : b' = b := Option.some.inj (hbj'.symm.trans hbj)
    obtain hkl | rfl | hlk := Nat.lt_trichotomy k l
    · exact absurd hlevel (Nat.ne_of_lt (level_lt_of_moments h hm hn ha hb hkl))
    · exact ⟨k, hk, hl⟩
    · exact absurd hlevel.symm (Nat.ne_of_lt (level_lt_of_moments h hn hm hb ha hlk))

end Moments

namespace Translation

/-! ### Side by side -/

/-- The levels of the lines. -/
def levels (t : Translation) : List Nat := t.lines.map ScriptLine.level

/-- The level at which a primitive is written. -/
def levelFor (t : Translation) (p : Primitive) : Nat :=
  t.cursor + if p.instruction.isComment then 1 else 0

theorem lines_write (t : Translation) (p : Primitive) :
    (t.write p).lines = t.lines ++ [⟨p, t.levelFor p⟩] := by
  unfold write levelFor Instruction.isComment
  rcases p.instruction.symbol? with _ | symbol <;> rfl

theorem levels_write (t : Translation) (p : Primitive) :
    (t.write p).levels = t.levels ++ [t.levelFor p] := by
  unfold levels
  rw [lines_write, List.map_append]
  rfl

theorem cursor_write (t : Translation) (p : Primitive) :
    (t.write p).cursor = t.cursor + if p.instruction.isComment then 2 else 0 := by
  unfold write Instruction.isComment
  rcases p.instruction.symbol? with _ | symbol <;> simp

/-- **Whenever the finer level stays, so does the coarser one.** The pairs hold a level of each. -/
def Turn (a b : Nat × Nat) : Prop := a.1 ≤ b.1 ∧ (a.1 = b.1 → a.2 = b.2)

theorem Turn.trans {a b c : Nat × Nat} (hab : Turn a b) (hbc : Turn b c) : Turn a c := by
  obtain ⟨hle, heq⟩ := hab
  obtain ⟨hle', heq'⟩ := hbc
  exact ⟨hle.trans hle', fun h => (heq (by omega)).trans (heq' (by omega))⟩

/-- Both levels move on by the same amount. -/
theorem Turn.add (a b : Nat) {m n : Nat} (h : m ≤ n) : Turn (a + m, b + m) (a + n, b + n) := by
  refine ⟨Nat.add_le_add_left h a, fun heq => ?_⟩
  rw [Nat.add_left_cancel heq]

/-- **A translation splits the moments of another one**: it has collected the same, under options
that differ in a depth that is not lower, and the levels of the other one only change where its own
levels do. -/
structure Splits (s t : Translation) : Prop where
  agrees : s.Agrees (t.under s.config)
  config : t.config = s.config.atDepth t.config.depth
  depth : t.config.depth ≤ s.config.depth
  reached : ∀ p ∈ s.levels.zip t.levels, Turn p (s.cursor, t.cursor)
  ordered : (s.levels.zip t.levels).Pairwise Turn

theorem splits_new {config : Config} {coarse fine : Nat} (h : coarse ≤ fine) :
    (new (config.atDepth fine)).Splits (new (config.atDepth coarse)) :=
  ⟨⟨rfl, rfl, rfl, rfl, rfl⟩, rfl, h, by simp [new, levels], by simp [new, levels]⟩

namespace Splits

variable {s t : Translation}

theorem length_levels (h : s.Splits t) : s.levels.length = t.levels.length := by
  have hlength := congrArg List.length h.agrees.primitives
  simpa [primitives, under, levels] using hlength

/-- Where the coarser cursor moves on, the finer one does too. -/
theorem turn_reaching (h : s.Splits t) (depth : Nat) :
    Turn (s.cursor, t.cursor) ((s.reaching depth).cursor, (t.reaching depth).cursor) := by
  have hdepth := h.depth
  unfold Translation.reaching Turn
  simp only
  split_ifs <;> omega

theorem reaching (h : s.Splits t) (depth : Nat) : (s.reaching depth).Splits (t.reaching depth) :=
  ⟨⟨rfl, h.agrees.primitives, h.agrees.gatesUsed, h.agrees.gatesErrored, h.agrees.measurementKey⟩,
    h.config, h.depth, fun p hp => (h.reached p hp).trans (h.turn_reaching depth), h.ordered⟩

theorem noting (h : s.Splits t) (label : String) : (s.noting label).Splits (t.noting label) :=
  ⟨h.agrees.noting label, h.config, h.depth, h.reached, h.ordered⟩

theorem write (h : s.Splits t) (p : Primitive) : (s.write p).Splits (t.write p) := by
  have hagrees : (s.write p).Agrees ((t.write p).under (s.write p).config) := by
    rw [config_write, ← write_under]
    exact h.agrees.write p
  have hconfig : (t.write p).config = (s.write p).config.atDepth (t.write p).config.depth := by
    rw [config_write, config_write]
    exact h.config
  have hdepth : (t.write p).config.depth ≤ (s.write p).config.depth := by
    rw [config_write, config_write]
    exact h.depth
  -- the line is at the cursors or one above, and the cursors stay or move on to two above
  have hline : ∀ q ∈ s.levels.zip t.levels, Turn q (s.levelFor p, t.levelFor p) := fun q hq =>
    (h.reached q hq).trans (Turn.add s.cursor t.cursor (Nat.zero_le _))
  have hcursor : Turn (s.levelFor p, t.levelFor p) ((s.write p).cursor, (t.write p).cursor) := by
    rw [cursor_write, cursor_write]
    exact Turn.add s.cursor t.cursor (by split_ifs <;> omega)
  have hzip : (s.write p).levels.zip (t.write p).levels =
      s.levels.zip t.levels ++ [(s.levelFor p, t.levelFor p)] := by
    rw [levels_write, levels_write, List.zip_append h.length_levels]
    rfl
  refine ⟨hagrees, hconfig, hdepth, ?_, ?_⟩ <;> rw [hzip]
  · intro q hq
    rcases List.mem_append.mp hq with hq | hq
    · exact (hline q hq).trans hcursor
    · exact List.mem_singleton.mp hq ▸ hcursor
  · refine List.pairwise_append.mpr ⟨h.ordered, List.pairwise_singleton _ _, fun q hq r hr => ?_⟩
    exact List.mem_singleton.mp hr ▸ hline q hq

theorem writeAll (ps : List Primitive) :
    ∀ {s t : Translation}, s.Splits t → (s.writeAll ps).Splits (t.writeAll ps) := by
  induction ps with
  | nil => exact fun h => h
  | cons p ps ih => exact fun h => ih (h.write p)

theorem settle (h : s.Splits t) : ∀ r : Except Halt (List Primitive),
    (s.settle r).InStep Splits (t.settle r)
  | .ok ps => ⟨rfl, writeAll ps h⟩
  | .error _ => ⟨rfl, h⟩

theorem unhandled (h : s.Splits t) (op : Operation) :
    (s.unhandled op).InStep Splits (t.unhandled op) := by
  have hnoted := h.noting op.gate
  rw [unhandled_eq, unhandled_eq, h.config]
  unfold Config.atDepth
  split_ifs
  · exact ⟨rfl, hnoted⟩
  · exact ⟨rfl, hnoted.write op.unhandledPrimitive⟩
  · exact ⟨rfl, hnoted⟩

/-- **At every stop** one translation goes on splitting the moments of the other. -/
theorem arrive (h : s.Splits t) (stop : Nat × Operation) :
    (Translation.arrive stop s).InStep Splits (Translation.arrive stop t) := by
  obtain ⟨depth, op⟩ := stop
  by_cases hop : op.Unsupported
  · exact ((h.reaching depth).unhandled op).of_outcome (outcome_arrive_of_unsupported hop depth s)
      (outcome_arrive_of_unsupported hop depth t)
  · have hkey : s.measurementKey = t.measurementKey := h.agrees.measurementKey
    refine ((h.reaching depth).settle (op.stopPrimitives s.measurementKey)).of_outcome
      (outcome_arrive_of_not_unsupported hop depth s) ?_
    rw [hkey]
    exact outcome_arrive_of_not_unsupported hop depth t

/-- Lines at one level of the finer translation are at one level of the coarser one. -/
theorem level_eq (h : s.Splits t) {i j : Nat} {a b a' b' : ScriptLine} (hij : i < j)
    (ha : s.lines[i]? = some a) (hb : s.lines[j]? = some b) (ha' : t.lines[i]? = some a')
    (hb' : t.lines[j]? = some b') (hlevel : a.level = b.level) : a'.level = b'.level := by
  have hpair : ∀ {k : Nat} {l l' : ScriptLine}, s.lines[k]? = some l → t.lines[k]? = some l' →
      (s.levels.zip t.levels)[k]? = some (l.level, l'.level) := by
    intro k l l' hl hl'
    refine List.getElem?_zip_eq_some.mpr ⟨?_, ?_⟩
    · exact (List.getElem?_map ..).trans (congrArg (Option.map ScriptLine.level) hl)
    · exact (List.getElem?_map ..).trans (congrArg (Option.map ScriptLine.level) hl')
  obtain ⟨hi, hfirst⟩ := List.getElem?_eq_some_iff.mp (hpair ha ha')
  obtain ⟨hj, hsecond⟩ := List.getElem?_eq_some_iff.mp (hpair hb hb')
  have hturn := List.pairwise_iff_getElem.mp h.ordered i j hi hj hij
  rw [hfirst, hsecond] at hturn
  exact hturn.2 hlevel

/-- **Lines that share a moment share one in the other translation.** -/
theorem sharesMoment (h : s.Splits t) (hs : s.Leveled) (ht : t.Leveled) {i j : Nat}
    (hij : SharesMoment s.lines i j) : SharesMoment t.lines i j := by
  obtain ⟨a, b, ha, hb, hlevel⟩ := (sharesMoment_iff hs.ordered).mp hij
  have hlength : s.lines.length = t.lines.length := by
    simpa [levels] using h.length_levels
  have hline : ∀ {k : Nat} {l : ScriptLine}, s.lines[k]? = some l →
      ∃ l', t.lines[k]? = some l' := by
    intro k l hl
    have hk : k < t.lines.length := hlength ▸ (List.getElem?_eq_some_iff.mp hl).1
    exact ⟨t.lines[k], List.getElem?_eq_getElem hk⟩
  obtain ⟨a', ha'⟩ := hline ha
  obtain ⟨b', hb'⟩ := hline hb
  refine (sharesMoment_iff ht.ordered).mpr ⟨a', b', ha', hb', ?_⟩
  obtain hlt | rfl | hgt := Nat.lt_trichotomy i j
  · exact h.level_eq hlt ha hb ha' hb' hlevel
  · exact congrArg ScriptLine.level (Option.some.inj (ha'.symm.trans hb'))
  · exact (h.level_eq hgt hb ha hb' ha' hlevel.symm).symm

end Splits

end Translation

namespace Operation

/-! ### Heights -/

mutual

/-- **The height of a tree**: the number of operations on its longest way from caller to call. -/
def height (op : Operation) : Nat :=
  match op with
  | ⟨_, _, children, _, _, _, _, _⟩ => heightCalls children + 1

/-- The height of what an operation calls. -/
def heightCalls (children : Option (List Operation)) : Nat :=
  match children with
  | some ops => heightAll ops
  | none => 0

/-- The height of a forest. -/
def heightAll (ops : List Operation) : Nat :=
  match ops with
  | [] => 0
  | op :: ops => max (height op) (heightAll ops)

end

mutual

/-- **A walk comes to no operation below the height.** -/
theorem depth_lt_of_mem_stops : ∀ (op : Operation) {depth : Nat} {stop : Nat × Operation},
    stop ∈ op.stops depth → stop.1 < depth + op.height
  | ⟨gate, args, children, controlled, adjoint, measurement, controls, targets⟩, depth, stop,
      h => by
    rw [stops] at h
    rw [height]
    split at h
    · rw [List.mem_singleton.mp h]
      simp only
      omega
    · rcases List.mem_cons.mp h with rfl | h
      · simp only
        omega
      · have hcalls := depth_lt_of_mem_stopsCalls children h
        omega

theorem depth_lt_of_mem_stopsCalls : ∀ (children : Option (List Operation)) {depth : Nat}
    {stop : Nat × Operation}, stop ∈ stopsCalls depth children →
    stop.1 < depth + heightCalls children
  | some ops, _, _, h => depth_lt_of_mem_stopsAll ops h
  | none, _, _, h => absurd h List.not_mem_nil

theorem depth_lt_of_mem_stopsAll : ∀ (ops : List Operation) {depth : Nat} {stop : Nat × Operation},
    stop ∈ stopsAll depth ops → stop.1 < depth + heightAll ops
  | [], _, _, h => absurd h List.not_mem_nil
  | op :: ops, depth, stop, h => by
    rw [stopsAll] at h
    rw [heightAll]
    rcases List.mem_append.mp h with h | h
    · have hop := depth_lt_of_mem_stops op h
      omega
    · have hops := depth_lt_of_mem_stopsAll ops h
      omega

end

end Operation

namespace Translation

/-! ### Lines of one operation -/

/-- The walk up to the `k`-th operation that it comes to. -/
def upTo (config : Config) (ops : List Operation) (k : Nat) : Walk :=
  tour ((Operation.stopsAll 1 ops).take k) (new config)

/-- The number of lines that the first operations have written. -/
def linesUpTo (config : Config) (ops : List Operation) (k : Nat) : Nat :=
  (upTo config ops k).translation.lines.length

/-- **The `k`-th operation that a walk comes to writes the `i`-th line.** -/
def Writes (config : Config) (ops : List Operation) (k i : Nat) : Prop :=
  Passes (linesUpTo config ops) k i

variable {config : Config} {ops : List Operation}

theorem upTo_length : upTo config ops (Operation.stopsAll 1 ops).length =
    (new config).visitAll ops := by
  rw [upTo, List.take_length, visitAll_eq_tour]

theorem prefix_upTo {k l : Nat} (h : k ≤ l) :
    (upTo config ops k).translation.lines <+: (upTo config ops l).translation.lines :=
  prefix_tour (List.take_prefix_take_left h) (new config)

theorem prefix_visitAll (k : Nat) : (upTo config ops k).translation.lines <+:
    ((new config).visitAll ops).translation.lines := by
  rw [visitAll_eq_tour]
  exact prefix_tour (List.take_prefix k _) (new config)

/-- Every line is written by an operation. -/
theorem exists_writes {i : Nat} (h : i < ((new config).visitAll ops).translation.lines.length) :
    ∃ k, Writes config ops k i := by
  rw [← upTo_length] at h
  obtain ⟨k, -, hk⟩ := exists_passes (linesUpTo config ops) (Nat.zero_le i) h
  exact ⟨k, hk⟩

/-- Lines that are written from now on are at a level that the cursor has reached. -/
theorem stable_above (level count : Nat) : Stable fun t =>
    level ≤ t.cursor ∧ count ≤ t.lines.length ∧ ∀ l ∈ t.lines.drop count, level ≤ l.level := by
  refine Stable.of_write (fun t h => ⟨Nat.le_succ_of_le h.1, h.2⟩) (fun t p h => ?_) fun _ _ h => h
  obtain ⟨hcursor, hcount, hlevel⟩ := h
  rw [cursor_write, lines_write, List.drop_append_of_le_length hcount, List.length_append]
  refine ⟨by omega, by omega, fun l hl => ?_⟩
  rcases List.mem_append.mp hl with hl | hl
  · exact hlevel l hl
  · rw [List.mem_singleton.mp hl]
    exact hcursor.trans (Nat.le_add_right _ _)

/-- The `k`-th operation is one that the walk comes to without having been stopped. -/
theorem exists_arrive_of_writes {k i : Nat} (h : Writes config ops k i) :
    ∃ stop, (Operation.stopsAll 1 ops)[k]? = some stop ∧ (upTo config ops k).halt = none ∧
      (upTo config ops (k + 1)).translation =
        (arrive stop (upTo config ops k).translation).translation := by
  obtain ⟨hle, hlt⟩ := h
  have hsplit : upTo config ops (k + 1) =
      (upTo config ops k).andThen (tour (Operation.stopsAll 1 ops)[k]?.toList) := by
    unfold upTo
    rw [List.take_add_one, tour_append]
  unfold linesUpTo at hle hlt
  rcases hhalt : (upTo config ops k).halt with _ | halt
  · rw [Walk.andThen_of_ok hhalt] at hsplit
    rcases hstop : (Operation.stopsAll 1 ops)[k]? with _ | stop
    · rw [hsplit, hstop] at hlt
      exact absurd hlt (Nat.not_lt_of_le hle)
    · rw [hstop, Option.toList_some] at hsplit
      refine ⟨stop, rfl, rfl, ?_⟩
      rw [hsplit, tour_singleton]
  · rw [Walk.andThen_of_halt hhalt] at hsplit
    rw [hsplit] at hlt
    exact absurd hlt (Nat.not_lt_of_le hle)

/-- A line that has been written by the first operations of a walk is a line of the whole walk. -/
theorem getElem?_upTo {k i : Nat} (h : i < linesUpTo config ops k) :
    (upTo config ops k).translation.lines[i]? =
      ((new config).visitAll ops).translation.lines[i]? := by
  have hlines : (upTo config ops k).translation.lines <+:
      ((new config).visitAll ops).translation.lines := prefix_visitAll k
  rw [List.prefix_iff_getElem?.mp hlines i h]
  exact List.getElem?_eq_getElem h

/-- **Under options that are deep enough** the lines of a later operation are at a higher level. -/
theorem level_lt_of_writes (hdepth : Operation.heightAll ops ≤ config.depth) {k l i j : Nat}
    {a b : ScriptLine} (hkl : k < l) (hi : Writes config ops k i) (hj : Writes config ops l j)
    (ha : ((new config).visitAll ops).translation.lines[i]? = some a)
    (hb : ((new config).visitAll ops).translation.lines[j]? = some b) : a.level < b.level := by
  have hline : ∀ {n m : Nat} {c : ScriptLine}, m < linesUpTo config ops n →
      ((new config).visitAll ops).translation.lines[m]? = some c →
      (upTo config ops n).translation.lines[m]? = some c :=
    fun hm hc => (getElem?_upTo hm).trans hc
  -- the cursor has reached the level of the first line when the walk comes to the later operation
  have hbefore : a.level ≤ (upTo config ops l).translation.cursor := by
    have hlength : linesUpTo config ops (k + 1) ≤ linesUpTo config ops l :=
      (prefix_upTo hkl).length_le
    have hleveled : (upTo config ops l).translation.Leveled :=
      stable_leveled.tour _ (leveled_new config)
    exact (hleveled.reached a (List.mem_of_getElem? (hline (hi.2.trans_le hlength) ha))).1
  -- it moves on there before anything is written
  have hbehind : (upTo config ops l).translation.cursor + 1 ≤ b.level := by
    obtain ⟨stop, hstop, -, harrive⟩ := exists_arrive_of_writes hj
    have hconfig : (upTo config ops l).translation.config = config := config_tour _ _
    have hreached : stop.1 ≤ (upTo config ops l).translation.config.depth := by
      have hheight := Operation.depth_lt_of_mem_stopsAll ops (List.mem_of_getElem? hstop)
      rw [hconfig]
      omega
    have habove := (stable_above ((upTo config ops l).translation.cursor + 1)
      (linesUpTo config ops l)).arrive_of_reaching stop (t := (upTo config ops l).translation)
      (by simp [reaching, hreached, linesUpTo])
    rw [← harrive] at habove
    refine habove.2.2 b (List.mem_of_getElem? (i := j - linesUpTo config ops l) ?_)
    rw [List.getElem?_drop, Nat.add_sub_cancel' hj.1]
    exact hline hj.2 hb
  omega

end Translation

/-- **A higher depth only splits moments.** Translations under options that differ in the depth fail
alike and have the same primitives, and lines that share a moment at the higher depth share one at
the lower depth. A depth that is not less than the height of the forest separates the operations:
every line is written by one of those that the walk comes to, and two lines that share a moment are
written by the same one. -/
theorem deeper_translation_splits_moments (path : ExecutionPath) (config : Config)
    {coarse fine : Nat} (h : coarse ≤ fine) :
    let s := ((Translation.new (config.atDepth fine)).visitAll path.operations).translation
    let t := ((Translation.new (config.atDepth coarse)).visitAll path.operations).translation
    (∀ halt, (translate path (config.atDepth fine)).script = .error halt ↔
      (translate path (config.atDepth coarse)).script = .error halt) ∧
    s.primitives = t.primitives ∧
    (∀ i j, SharesMoment s.lines i j → SharesMoment t.lines i j) ∧
    (Operation.heightAll path.operations ≤ fine →
      (∀ i < s.lines.length, ∃ k, Translation.Writes (config.atDepth fine) path.operations k i) ∧
      ∀ i j k l, SharesMoment s.lines i j →
        Translation.Writes (config.atDepth fine) path.operations k i →
        Translation.Writes (config.atDepth fine) path.operations l j → k = l) := by
  intro s t
  have hwalks : ((Translation.new (config.atDepth fine)).visitAll path.operations).InStep
      Translation.Splits ((Translation.new (config.atDepth coarse)).visitAll path.operations) := by
    rw [Translation.visitAll_eq_tour, Translation.visitAll_eq_tour]
    exact Translation.inStep_tour (fun stop _ _ _ hst => hst.arrive stop)
      (Translation.splits_new h)
  have hleveled : ∀ config : Config,
      ((Translation.new config).visitAll path.operations).translation.Leveled := fun config =>
    Translation.stable_leveled.visitAll (Translation.leveled_new config) _
  refine ⟨fun halt => ?_, hwalks.translation.agrees.primitives, fun i j hij => ?_, fun hheight =>
    ⟨fun i hi => Translation.exists_writes hi, fun i j k l hij hi hj => ?_⟩⟩
  · rw [script_translate, script_translate, Walk.script_eq_error_iff, Walk.script_eq_error_iff,
      hwalks.halt]
  · exact hwalks.translation.sharesMoment (hleveled _) (hleveled _) hij
  · obtain ⟨a, b, ha, hb, hlevel⟩ := (sharesMoment_iff (hleveled _).ordered).mp hij
    obtain hkl | rfl | hlk := Nat.lt_trichotomy k l
    · exact absurd hlevel (Nat.ne_of_lt (Translation.level_lt_of_writes hheight hkl hi hj ha hb))
    · rfl
    · exact absurd hlevel.symm
        (Nat.ne_of_lt (Translation.level_lt_of_writes hheight hlk hj hi hb ha))

/-- An exponential and a gate below one call, and a gate behind it: one moment at depth 1, and one
for each of the three at depth 3. -/
theorem deeper_translation_splits_moments_of_three :
    let path : ExecutionPath := ⟨[⟨0, 1⟩, ⟨1, 0⟩], [{ Operation.ofGate "Main" with
      children := some [
        { Operation.ofGate "Layer" with
          children := some [
            { Operation.ofGate "Exp" with
              displayArgs := some "([PauliZ, PauliZ], 0.5)", targets := [.qubit 0, .qubit 1] },
            { Operation.ofGate "H" with targets := [.qubit 0] }] },
        { Operation.ofGate "X" with targets := [.qubit 1] }] }]⟩
    let atDepth : Nat → Translation := fun depth =>
      ((Translation.new (Config.default.atDepth depth)).visitAll path.operations).translation
    (moments (atDepth 1).lines).map List.length = [5] ∧
      (moments (atDepth 3).lines).map List.length = [3, 1, 1] ∧
      (atDepth 3).primitives = (atDepth 1).primitives ∧
      (∀ i j, SharesMoment (atDepth 3).lines i j → SharesMoment (atDepth 1).lines i j) ∧
      ∀ i j k l, SharesMoment (atDepth 3).lines i j →
        Translation.Writes (Config.default.atDepth 3) path.operations k i →
        Translation.Writes (Config.default.atDepth 3) path.operations l j → k = l := by
  intro path atDepth
  obtain ⟨-, hprimitives, hshares, hseparate⟩ :=
    deeper_translation_splits_moments path .default (show 1 ≤ 3 by decide)
  exact ⟨by decide +kernel, by decide +kernel, hprimitives, hshares,
    (hseparate (by decide +kernel)).2⟩

end CircuitTrace
