import CircuitTrace.Proofs.Script.Origin
import Mathlib.Data.List.Basic

/-! # Physical lines and comments

A reader of a script cuts it at line ends, and a line that starts with a number sign behind its
indentation is a comment. What a script quotes stays in comments if every line that quotes a label
is one (`Newlines.Commented`). Where two texts meet, the last line of the one and the first line of
the other become one line (`exists_lines_append`), so this does not pass to texts that are put
together, with two exceptions: behind a line feed (`commented_append_lineFeed_iff`), and behind a
text that is the start of a comment (`commented_append_iff`). In the latter case only the lines
behind the first one count (`Newlines.ContinuesComment`).

The physical lines that a layout indents are not those of the reader, who may also end lines at
carriage returns; but indenting them does not move a quotation out of its comment
(`Commented.indentedGlyphs`). -/

namespace CircuitTrace

/-- What ends a physical line for a reader of scripts. -/
inductive Newlines where
  /-- Line feeds. -/
  | unix
  /-- Line feeds, and carriage returns with or without a line feed behind them. -/
  | universal

namespace Glyph

/-- The line quotes a label. -/
def Quotes (line : List Glyph) : Prop := ∃ g ∈ line, g.quoted = true

instance (line : List Glyph) : Decidable (Quotes line) :=
  inferInstanceAs (Decidable (∃ g ∈ line, g.quoted = true))

/-- A character that indents a line. -/
def isIndentation (g : Glyph) : Bool := [' ', '\t', '\x0c'].contains g.char

/-- **The line is a comment**: behind its indentation it starts with a number sign. -/
def IsComment (line : List Glyph) : Prop :=
  (line.dropWhile isIndentation).head?.map char = some '#'

instance (line : List Glyph) : Decidable (IsComment line) :=
  inferInstanceAs (Decidable (_ = _))

/-! ### Quotations -/

theorem quotes_append {s s' : List Glyph} : Quotes (s ++ s') ↔ Quotes s ∨ Quotes s' := by
  unfold Quotes
  simp only [List.mem_append, or_and_right, exists_or]

theorem not_quotes_own (s : String) : ¬ Quotes (own s) := by
  rintro ⟨g, hg, hquoted⟩
  obtain ⟨c, -, rfl⟩ := List.mem_map.mp hg
  cases hquoted

theorem forall_mem_intercalate {p : Glyph → Prop} {sep : List Glyph} (hsep : ∀ g ∈ sep, p g) :
    ∀ {ss : List (List Glyph)}, (∀ s ∈ ss, ∀ g ∈ s, p g) → ∀ g ∈ sep.intercalate ss, p g
  | [], _ => nofun
  | [s], h => by simpa using h s List.mem_cons_self
  | s :: s' :: ss, h => by
    obtain ⟨hs, hss⟩ := List.forall_mem_cons.mp h
    rw [List.intercalate_cons_cons, List.forall_mem_append, List.forall_mem_append]
    exact ⟨⟨hs, hsep⟩, forall_mem_intercalate hsep hss⟩

theorem not_quotes_intercalate {sep : List Glyph} (hsep : ¬ Quotes sep) {ss : List (List Glyph)}
    (h : ∀ s ∈ ss, ¬ Quotes s) : ¬ Quotes (sep.intercalate ss) := by
  simp only [Quotes, not_exists, not_and] at hsep h ⊢
  exact forall_mem_intercalate hsep h

/-! ### Comments -/

/-- A text makes a comment of a line that it is put behind only if there is nothing but indentation
in front of it. -/
theorem isComment_append {line more : List Glyph} :
    IsComment (line ++ more) ↔
      IsComment line ∨ line.dropWhile isIndentation = [] ∧ IsComment more := by
  unfold IsComment
  rw [List.dropWhile_append]
  rcases hline : line.dropWhile isIndentation with _ | ⟨g, rest⟩ <;> simp

theorem IsComment.append {line : List Glyph} (h : IsComment line) (more : List Glyph) :
    IsComment (line ++ more) := isComment_append.mpr (Or.inl h)

theorem IsComment.of_append {line more : List Glyph} (h : IsComment (line ++ more))
    (hmore : ¬ IsComment more) : IsComment line :=
  (isComment_append.mp h).resolve_right fun hindented => hmore hindented.2

theorem IsComment.indent {line : List Glyph} (h : IsComment line) :
    IsComment (own "    " ++ line) := isComment_append.mpr (Or.inr ⟨by decide, h⟩)

end Glyph

open Glyph

namespace Newlines

/-- The characters that end a line. -/
def ends : Newlines → List Char
  | unix => ['\n']
  | universal => ['\n', '\r']

/-- **The physical lines of a text** for a reader. A carriage return and a line feed behind it count
as two ends, with an empty line between them. -/
def lines (newlines : Newlines) (s : List Glyph) : List (List Glyph) :=
  s.splitOnP fun g => newlines.ends.contains g.char

variable (newlines : Newlines)

/-- A line feed ends a line. -/
theorem contains_lineFeed (quoted : Bool) :
    newlines.ends.contains (Glyph.char ⟨'\n', quoted⟩) = true := by
  cases newlines <;> rfl

theorem lines_cons_of_end {g : Glyph} (h : newlines.ends.contains g.char = true)
    (s : List Glyph) : newlines.lines (g :: s) = [] :: newlines.lines s := by
  unfold lines
  rw [List.splitOnP_cons_eq_if_modifyHead, if_pos h]

theorem lines_cons_of_not_end {g : Glyph} (h : ¬ newlines.ends.contains g.char = true)
    (s : List Glyph) :
    newlines.lines (g :: s) = (newlines.lines s).modifyHead (g :: ·) := by
  unfold lines
  rw [List.splitOnP_cons_eq_if_modifyHead, if_neg h]

/-- **Where two texts meet**, the last line of the one and the first line of the other are one. -/
theorem exists_lines_append (s s' : List Glyph) : ∃ init last first rest,
    newlines.lines s = init ++ [last] ∧ newlines.lines s' = first :: rest ∧
      newlines.lines (s ++ s') = init ++ (last ++ first) :: rest := by
  induction s with
  | nil =>
    rcases hs' : newlines.lines s' with _ | ⟨first, rest⟩
    · exact absurd hs' (List.splitOnP_ne_nil _ _)
    · exact ⟨[], [], first, rest, rfl, rfl, hs'⟩
  | cons g s ih =>
    obtain ⟨init, last, first, rest, hs, hs', happend⟩ := ih
    by_cases hg : newlines.ends.contains g.char = true
    · refine ⟨[] :: init, last, first, rest, ?_, hs', ?_⟩
      · rw [lines_cons_of_end _ hg, hs, List.cons_append]
      · rw [List.cons_append, lines_cons_of_end _ hg, happend, List.cons_append]
    · rw [List.cons_append, lines_cons_of_not_end _ hg, lines_cons_of_not_end _ hg, hs, happend]
      rcases init with _ | ⟨line, init⟩
      · exact ⟨[], g :: last, first, rest, rfl, hs', rfl⟩
      · exact ⟨(g :: line) :: init, last, first, rest, rfl, hs', rfl⟩

theorem exists_lines_append_of_line {s : List Glyph} (h : newlines.lines s = [s])
    (s' : List Glyph) : ∃ first rest,
    newlines.lines s' = first :: rest ∧ newlines.lines (s ++ s') = (s ++ first) :: rest := by
  obtain ⟨init, last, first, rest, hs, hs', happend⟩ := newlines.exists_lines_append s s'
  rw [h] at hs
  rcases init with _ | ⟨line, init⟩
  · obtain rfl : s = last := List.singleton_inj.mp hs
    exact ⟨first, rest, hs', happend⟩
  · simp at hs

/-- A line is a part of the text. -/
theorem subset_of_mem_lines {s : List Glyph} : ∀ line ∈ newlines.lines s, line ⊆ s := by
  induction s with
  | nil => exact List.forall_mem_singleton.mpr (List.Subset.refl [])
  | cons g s ih =>
    by_cases hend : newlines.ends.contains g.char = true
    · rw [lines_cons_of_end _ hend, List.forall_mem_cons]
      exact ⟨List.nil_subset _, fun line hline => List.subset_cons_of_subset g (ih line hline)⟩
    · rw [lines_cons_of_not_end _ hend]
      rcases hlines : newlines.lines s with _ | ⟨first, rest⟩
      · exact absurd hlines (List.splitOnP_ne_nil _ _)
      · rw [hlines, List.forall_mem_cons] at ih
        rw [List.modifyHead_cons, List.forall_mem_cons]
        exact ⟨List.cons_subset_cons g ih.1,
          fun line hline => List.subset_cons_of_subset g (ih.2 line hline)⟩

/-- A text that quotes nothing has no line that does. -/
theorem not_quotes_of_mem_lines {s : List Glyph} (h : ¬ Quotes s) :
    ∀ line ∈ newlines.lines s, ¬ Quotes line := by
  rintro line hline ⟨g, hg, hquoted⟩
  exact h ⟨g, newlines.subset_of_mem_lines line hline hg, hquoted⟩

/-- Every line of a label quotes it, unless it is empty. -/
theorem quotes_of_mem_lines {label : String} : ∀ line ∈ newlines.lines (quote label),
    line ≠ [] → Quotes line := by
  intro line hline hne
  obtain ⟨g, rest, rfl⟩ := List.exists_cons_of_ne_nil hne
  have hg : g ∈ quote label := newlines.subset_of_mem_lines _ hline List.mem_cons_self
  obtain ⟨c, -, rfl⟩ := List.mem_map.mp hg
  exact ⟨_, List.mem_cons_self, rfl⟩

/-- **Texts that go on with comments** behind their first lines do so together. -/
theorem isComment_of_mem_tail_append {s s' : List Glyph}
    (hs : ∀ line ∈ (newlines.lines s).tail, IsComment line)
    (hs' : ∀ line ∈ (newlines.lines s').tail, IsComment line) :
    ∀ line ∈ (newlines.lines (s ++ s')).tail, IsComment line := by
  obtain ⟨init, last, first, rest, hlines, hlines', happend⟩ := newlines.exists_lines_append s s'
  rw [hlines] at hs
  rw [hlines'] at hs'
  rw [happend]
  rcases init with _ | ⟨line', init⟩
  · exact hs'
  · obtain ⟨hinit, hlast⟩ := List.forall_mem_append.mp hs
    refine List.forall_mem_append.mpr ⟨hinit, List.forall_mem_cons.mpr ⟨?_, hs'⟩⟩
    exact (hlast last (List.mem_singleton_self last)).append first

/-- **What a text quotes stays in comments**: every line that quotes a label is a comment. -/
def Commented (s : List Glyph) : Prop := ∀ line ∈ newlines.lines s, Quotes line → IsComment line

/-- What a text quotes stays in comments if it is put behind a number sign. -/
def ContinuesComment (s : List Glyph) : Prop :=
  ∀ line ∈ (newlines.lines s).tail, Quotes line → IsComment line

/-! ### Texts in comments -/

variable {newlines} {s s' : List Glyph}

theorem commented_of_not_quotes (h : ¬ Quotes s) : newlines.Commented s := fun line hline hquotes =>
  absurd hquotes (newlines.not_quotes_of_mem_lines h line hline)

theorem commented_append_lineFeed_iff (quoted : Bool) :
    newlines.Commented (s ++ ⟨'\n', quoted⟩ :: s') ↔
      newlines.Commented s ∧ newlines.Commented s' := by
  unfold Commented lines
  rw [List.splitOnP_append_cons s s' (newlines.contains_lineFeed quoted)]
  exact List.forall_mem_append

/-- At the start of a line nothing but the text itself makes comments. -/
theorem continuesComment_lineFeed_iff (quoted : Bool) :
    newlines.ContinuesComment (⟨'\n', quoted⟩ :: s) ↔ newlines.Commented s := by
  unfold ContinuesComment
  rw [lines_cons_of_end _ (newlines.contains_lineFeed quoted)]
  rfl

/-- **Behind a comment** the first line of a text is in the comment, and the others are on their
own. -/
theorem commented_append_iff (hline : newlines.lines s = [s]) (hcomment : IsComment s) :
    newlines.Commented (s ++ s') ↔ newlines.ContinuesComment s' := by
  obtain ⟨first, rest, hs', happend⟩ := newlines.exists_lines_append_of_line hline s'
  unfold Commented ContinuesComment
  rw [happend, hs', List.forall_mem_cons]
  exact and_iff_right fun _ => hcomment.append first

theorem ContinuesComment.of_append_left (h : newlines.ContinuesComment (s ++ s')) :
    newlines.ContinuesComment s' := by
  obtain ⟨init, last, first, rest, -, hs', happend⟩ := newlines.exists_lines_append s s'
  unfold ContinuesComment at h ⊢
  rw [happend] at h
  rw [hs']
  intro line hline
  refine h line ?_
  rcases init with _ | ⟨line', init⟩
  · exact hline
  · exact List.mem_append_right init (List.mem_cons_of_mem _ hline)

/-- What is no comment does not help the text in front of it. -/
theorem ContinuesComment.of_append_right (h : newlines.ContinuesComment (s ++ s'))
    (hfirst : ∀ line ∈ (newlines.lines s').head?, ¬ IsComment line) :
    newlines.ContinuesComment s := by
  obtain ⟨init, last, first, rest, hs, hs', happend⟩ := newlines.exists_lines_append s s'
  have hnot : ¬ IsComment first := hfirst first (by rw [hs']; rfl)
  unfold ContinuesComment at h ⊢
  rw [happend] at h
  rw [hs]
  rcases init with _ | ⟨line', init⟩
  · exact nofun
  · intro line hline hquotes
    rcases List.mem_append.mp hline with hline | hline
    · exact h line (List.mem_append_left _ hline) hquotes
    · rw [List.mem_singleton.mp hline] at hquotes ⊢
      have hlast : IsComment (last ++ first) :=
        h _ (List.mem_append_right init List.mem_cons_self) (quotes_append.mpr (Or.inl hquotes))
      exact hlast.of_append hnot

/-- What quotes nothing does not harm the text in front of it. -/
theorem ContinuesComment.append (h : newlines.ContinuesComment s) (hs' : ¬ Quotes s') :
    newlines.ContinuesComment (s ++ s') := by
  obtain ⟨init, last, first, rest, hs, hlines, happend⟩ := newlines.exists_lines_append s s'
  have hnone := newlines.not_quotes_of_mem_lines hs'
  rw [hlines, List.forall_mem_cons] at hnone
  unfold ContinuesComment at h ⊢
  rw [hs] at h
  rw [happend]
  rcases init with _ | ⟨line', init⟩
  · exact fun line hline hquotes => absurd hquotes (hnone.2 line hline)
  · intro line hline hquotes
    rcases List.mem_append.mp hline with hline | hline
    · exact h line (List.mem_append_left _ hline) hquotes
    rcases List.mem_cons.mp hline with rfl | hline
    · have hlast : Quotes last := (quotes_append.mp hquotes).resolve_right hnone.1
      exact (h last (List.mem_append_right init (List.mem_singleton_self last)) hlast).append first
    · exact absurd hquotes (hnone.2 line hline)

/-- The same at the start of a line. -/
theorem Commented.of_append_right (h : newlines.Commented (s ++ s'))
    (hfirst : ∀ line ∈ (newlines.lines s').head?, ¬ IsComment line) : newlines.Commented s := by
  rw [← continuesComment_lineFeed_iff false] at h ⊢
  exact ContinuesComment.of_append_right (s := ⟨'\n', false⟩ :: s) h hfirst

/-! ### Indentation -/

theorem Commented.indent (h : newlines.Commented s) : newlines.Commented (own "    " ++ s) := by
  have hblanks : newlines.lines (own "    ") = [own "    "] := by cases newlines <;> rfl
  obtain ⟨first, rest, hs', happend⟩ := newlines.exists_lines_append_of_line hblanks s
  unfold Commented at h ⊢
  rw [hs', List.forall_mem_cons] at h
  rw [happend, List.forall_mem_cons]
  refine ⟨fun hquotes => IsComment.indent (h.1 ?_), h.2⟩
  exact (quotes_append.mp hquotes).resolve_left (not_quotes_own _)

theorem Commented.closeLine {line : List Glyph} (h : newlines.Commented line.reverse) :
    newlines.Commented (closeLine line) := by
  unfold Glyph.closeLine
  split
  · next quoted line =>
    rw [List.reverse_cons] at h
    refine h.of_append_right fun first hfirst => ?_
    -- the carriage return is an end of its own, or it is what is left of the line
    have hfirst : first = [] ∨ first = [⟨'\r', quoted⟩] := by
      cases newlines with
      | unix => exact Or.inr (Option.some.inj hfirst).symm
      | universal => exact Or.inl (Option.some.inj hfirst).symm
    rcases hfirst with rfl | rfl <;> simp [IsComment, isIndentation]
  · exact h

/-- **The physical lines of a text keep it in comments.** -/
theorem Commented.physicalLinesFrom {line : List Glyph}
    (h : newlines.Commented (line.reverse ++ s)) :
    ∀ l ∈ physicalLinesFrom line s, newlines.Commented l := by
  induction s generalizing line with
  | nil =>
    rw [List.append_nil] at h
    rw [Glyph.physicalLinesFrom]
    split_ifs
    · exact fun l hl => absurd hl List.not_mem_nil
    · exact List.forall_mem_singleton.mpr h
  | cons g s ih =>
    obtain ⟨c, quoted⟩ := g
    by_cases hc : c = '\n'
    · subst hc
      obtain ⟨hline, hs⟩ := (commented_append_lineFeed_iff quoted).mp h
      rw [Glyph.physicalLinesFrom, List.forall_mem_cons]
      exact ⟨hline.closeLine, ih hs⟩
    · have hs : newlines.Commented ((⟨c, quoted⟩ :: line).reverse ++ s) := by
        rw [List.reverse_cons, List.append_assoc]
        exact h
      rw [Glyph.physicalLinesFrom]
      · exact ih hs
      · simp [hc]

theorem Commented.indentedGlyphs (h : newlines.Commented s) :
    ∀ l ∈ Translation.indentedGlyphs s, newlines.Commented l := by
  intro l hl
  obtain ⟨line, hline, rfl⟩ := List.mem_map.mp hl
  have hlines : ∀ l ∈ physicalLines s, newlines.Commented l := Commented.physicalLinesFrom h
  exact (hlines line hline).indent

end Newlines

end CircuitTrace
