import CircuitTrace.Proofs.Translation.Stable
import Mathlib.Data.List.SplitBy

/-! # Levels and moments

Two places move the cursor of a translation: a visit moves it on before a high operation, and a
comment moves it on before and behind itself. Either way no later line stands at a lower level, and
a comment shares its level with no other line (`ScriptLine.Precedes`). The invariant behind this
(`Translation.Leveled`) also bounds the levels by the cursor, strictly for comments, and is stable,
so it holds after every list of tasks (`leveled_performAll`).

The moments of such lines are a partition in which the levels go up from moment to moment
(`pairwise_lt_moments`) and every comment stands alone (`eq_singleton_of_mem_moments`), so what is
written of a moment is either a comment as it is or a statement without comments
(`renderMoment_cases`). `moments_performAll` collects all this. -/

namespace CircuitTrace

/-- **A line precedes another one**: it stands at a level that is not higher, and at another level
if one of them is a comment. -/
def ScriptLine.Precedes (a b : ScriptLine) : Prop :=
  a.level ≤ b.level ∧ (a.isComment = true ∨ b.isComment = true → a.level ≠ b.level)

namespace Translation

/-! ### The cursor -/

/-- **The lines are ordered by levels**, all of which the cursor has reached. -/
structure Leveled (t : Translation) : Prop where
  /-- The cursor is at the level of every line, and behind the comments. -/
  reached : ∀ l ∈ t.lines, l.level ≤ t.cursor ∧ (l.isComment = true → l.level < t.cursor)
  /-- The lines precede each other. -/
  ordered : t.lines.Pairwise ScriptLine.Precedes

theorem Leveled.write {t : Translation} (h : t.Leveled) (p : Primitive) : (t.write p).Leveled := by
  unfold Translation.write
  rcases hsymbol : p.instruction.symbol? with _ | symbol
  · -- the level of a comment is new, and the cursor leaves it
    refine ⟨fun l hl => ?_, List.pairwise_append.mpr ⟨h.ordered, List.pairwise_singleton _ _, ?_⟩⟩
    · rcases List.mem_append.mp hl with hl | hl
      · have hreached := (h.reached l hl).1
        exact ⟨by simp only; omega, fun _ => by simp only; omega⟩
      · rw [List.mem_singleton.mp hl]
        exact ⟨by simp only; omega, fun _ => by simp only; omega⟩
    · intro a ha b hb
      have hreached := (h.reached a ha).1
      rw [List.mem_singleton.mp hb]
      exact ⟨by simp only; omega, fun _ => by simp only; omega⟩
  · -- an instruction stands where the cursor is, which no comment has reached
    have hcomment : ∀ level, ScriptLine.isComment ⟨p, level⟩ = false := by
      intro level
      unfold ScriptLine.isComment Instruction.isComment
      rw [hsymbol]
      rfl
    refine ⟨fun l hl => ?_, List.pairwise_append.mpr ⟨h.ordered, List.pairwise_singleton _ _, ?_⟩⟩
    · rcases List.mem_append.mp hl with hl | hl
      · exact h.reached l hl
      · rw [List.mem_singleton.mp hl]
        exact ⟨Nat.le_refl _, fun hc => by rw [hcomment] at hc; cases hc⟩
    · intro a ha b hb
      obtain ⟨hle, hlt⟩ := h.reached a ha
      rw [List.mem_singleton.mp hb]
      refine ⟨hle, fun hc => Nat.ne_of_lt (hlt ?_)⟩
      rw [hcomment] at hc
      exact hc.resolve_right Bool.false_ne_true

theorem stable_leveled : Stable Leveled := by
  refine Stable.of_write (fun t h => ⟨fun l hl => ?_, h.ordered⟩) (fun t p h => h.write p)
    fun t label h => ⟨h.reached, h.ordered⟩
  obtain ⟨hle, hlt⟩ := h.reached l hl
  exact ⟨Nat.le_succ_of_le hle, fun hc => Nat.lt_succ_of_lt (hlt hc)⟩

theorem leveled_new (config : Config) : (new config).Leveled := ⟨by simp [new], by simp [new]⟩

/-- **The lines of every translation are ordered by levels.** -/
theorem leveled_performAll (config : Config) (tasks : List Task) :
    ((Translation.new config).performAll tasks).Leveled :=
  stable_leveled.performAll tasks (leveled_new config)

end Translation

/-! ### Moments -/

section Moments

variable {lines : List ScriptLine} {m : List ScriptLine}

theorem level_eq_of_mem_moments (hm : m ∈ moments lines) {a b : ScriptLine} (ha : a ∈ m)
    (hb : b ∈ m) : a.level = b.level := by
  have hchain : (m.map ScriptLine.level).IsChain (· = ·) :=
    (List.isChain_map _).mpr
      ((List.isChain_of_mem_splitBy hm).imp fun a b hab => beq_iff_eq.mp hab)
  have hequal : (m.map ScriptLine.level).Pairwise (· = ·) := List.isChain_iff_pairwise.mp hchain
  exact hequal.forall_of_forall (fun _ _ => rfl) (List.mem_map_of_mem ha) (List.mem_map_of_mem hb)

theorem sublist_of_mem_moments (hm : m ∈ moments lines) : m.Sublist lines := by
  have hflatten : (moments lines).flatten = lines := List.flatten_splitBy _ lines
  rw [← hflatten]
  exact List.sublist_flatten_of_mem hm

/-- Runs of one level, neighbours of which differ, go up if their lines do. -/
theorem pairwise_lt_of_runs : ∀ {runs : List (List ScriptLine)},
    (∀ m ∈ runs, ∀ a ∈ m, ∀ b ∈ m, a.level = b.level) →
    (runs.IsChain fun m n => ∃ hm hn, ((m.getLast hm).level == (n.head hn).level) = false) →
    runs.flatten.Pairwise (fun a b => a.level ≤ b.level) →
    runs.Pairwise fun m n => ∀ a ∈ m, ∀ b ∈ n, a.level < b.level
  | [], _, _, _ => List.Pairwise.nil
  | [m], _, _, _ => List.pairwise_singleton _ m
  | m :: n :: runs, hlevel, hchain, hle => by
    obtain ⟨-, hle_rest, hle_between⟩ := List.pairwise_append.mp hle
    obtain ⟨⟨hm, hn, hne⟩, hchain_rest⟩ := List.isChain_cons_cons.mp hchain
    have hrest := pairwise_lt_of_runs (fun k hk => hlevel k (List.mem_cons_of_mem m hk))
      hchain_rest hle_rest
    have hhead : n.head hn ∈ n := List.head_mem hn
    have hturn : (m.getLast hm).level < (n.head hn).level := by
      have hturn_le := hle_between _ (List.getLast_mem hm) _ (List.mem_append_left _ hhead)
      have hturn_ne : (m.getLast hm).level ≠ (n.head hn).level := by simpa using hne
      omega
    refine List.Pairwise.cons (fun k hk a ha b hb => ?_) hrest
    have hfirst : a.level = (m.getLast hm).level :=
      hlevel m List.mem_cons_self a ha _ (List.getLast_mem hm)
    have hsecond : (n.head hn).level ≤ b.level := by
      rcases List.mem_cons.mp hk with rfl | hk
      · have hsame := hlevel k (List.mem_cons_of_mem m List.mem_cons_self) _ hhead b hb
        omega
      · exact Nat.le_of_lt ((List.pairwise_cons.mp hrest).1 k hk _ hhead b hb)
    omega

/-- **The levels go up from moment to moment.** -/
theorem pairwise_lt_moments (h : lines.Pairwise ScriptLine.Precedes) :
    (moments lines).Pairwise fun m n => ∀ a ∈ m, ∀ b ∈ n, a.level < b.level := by
  have hchain := List.isChain_getLast_head_splitBy
    (fun a b : ScriptLine => a.level == b.level) lines
  refine pairwise_lt_of_runs (fun m hm a ha b hb => level_eq_of_mem_moments hm ha hb) hchain ?_
  have hflatten : (moments lines).flatten = lines := List.flatten_splitBy _ lines
  rw [hflatten]
  exact h.imp fun hab => hab.1

/-- **A comment is a moment of its own.** -/
theorem eq_singleton_of_mem_moments (h : lines.Pairwise ScriptLine.Precedes)
    (hm : m ∈ moments lines) {l : ScriptLine} (hl : l ∈ m) (hc : l.isComment = true) :
    m = [l] := by
  have hpairwise : m.Pairwise ScriptLine.Precedes := h.sublist (sublist_of_mem_moments hm)
  have hequal : ∀ a ∈ m, a.level = l.level := fun a ha => level_eq_of_mem_moments hm ha hl
  obtain ⟨before, after, rfl⟩ := List.append_of_mem hl
  obtain ⟨-, hlater, hbefore⟩ := List.pairwise_append.mp hpairwise
  have hafter := (List.pairwise_cons.mp hlater).1
  have hnone : before = [] := List.eq_nil_iff_forall_not_mem.mpr fun a ha =>
    (hbefore a ha l List.mem_cons_self).2 (Or.inr hc) (hequal a (List.mem_append_left _ ha))
  have hnone' : after = [] := List.eq_nil_iff_forall_not_mem.mpr fun a ha =>
    (hafter a ha).2 (Or.inl hc)
      (hequal a (List.mem_append_right _ (List.mem_cons_of_mem l ha))).symm
  rw [hnone, hnone', List.nil_append]

/-- **What is written of a moment** is a comment as it is, or a statement without comments. -/
theorem renderMoment_cases (h : lines.Pairwise ScriptLine.Precedes) (hm : m ∈ moments lines)
    (collection : String) :
    (∃ l, m = [l] ∧ l.isComment = true ∧ renderMoment collection m = l.render) ∨
      (∀ l ∈ m, l.isComment = false) ∧
        renderMoment collection m =
          collection ++ ".append([" ++ String.intercalate ", " (m.map ScriptLine.render) ++
            "])" := by
  by_cases hcomment : ∃ l ∈ m, l.isComment = true
  · obtain ⟨l, hl, hc⟩ := hcomment
    have hone := eq_singleton_of_mem_moments h hm hl hc
    refine Or.inl ⟨l, hone, hc, ?_⟩
    subst hone
    simp [renderMoment, hc]
  · have hnone : ∀ l ∈ m, l.isComment = false := fun l hl =>
      Bool.eq_false_iff.mpr fun hc => hcomment ⟨l, hl, hc⟩
    refine Or.inr ⟨hnone, ?_⟩
    rcases m with _ | ⟨first, rest⟩
    · rfl
    · simp [renderMoment, hnone first List.mem_cons_self]

end Moments

namespace Translation

/-- **Moments are a partition of the script in which comments stand alone.** After any tasks, the
levels of the lines never go down, and a comment shares its level with no other line. The moments
are not empty, make up the lines together, each at one level and all at increasing levels; a comment
is the only line of its moment, and every statement is made of instructions. -/
theorem moments_performAll (config : Config) (tasks : List Task) (collection : String) :
    let lines := ((Translation.new config).performAll tasks).lines
    lines.Pairwise (fun a b => a.level ≤ b.level) ∧
      lines.Pairwise (fun a b => a.isComment = true ∨ b.isComment = true → a.level ≠ b.level) ∧
      (moments lines).flatten = lines ∧
      (∀ m ∈ moments lines, m ≠ [] ∧ ∀ a ∈ m, ∀ b ∈ m, a.level = b.level) ∧
      (moments lines).Pairwise (fun m n => ∀ a ∈ m, ∀ b ∈ n, a.level < b.level) ∧
      (∀ m ∈ moments lines, ∀ l ∈ m, l.isComment = true → m = [l]) ∧
      ∀ m ∈ moments lines,
        (∃ l, m = [l] ∧ l.isComment = true ∧ renderMoment collection m = l.render) ∨
          (∀ l ∈ m, l.isComment = false) ∧
            renderMoment collection m =
              collection ++ ".append([" ++ String.intercalate ", " (m.map ScriptLine.render) ++
                "])" := by
  intro lines
  have hordered : lines.Pairwise ScriptLine.Precedes := (leveled_performAll config tasks).ordered
  refine ⟨hordered.imp fun h => h.1, hordered.imp fun h => h.2, List.flatten_splitBy _ lines,
    fun m hm => ⟨List.ne_nil_of_mem_splitBy hm, fun a ha b hb => ?_⟩, pairwise_lt_moments hordered,
    fun m hm l hl hc => eq_singleton_of_mem_moments hordered hm hl hc,
    fun m hm => renderMoment_cases hordered hm collection⟩
  exact level_eq_of_mem_moments hm ha hb

end Translation

end CircuitTrace
