import CircuitTrace.Script.Layout
import Mathlib.Tactic.SplitIfs

/-! # The origin of the characters of a script

Most of a script is the translation's own text. But the labels of unhandled operations are taken
over from the path as they are, into the list of them at the head and into their comments. A *glyph*
is a character of a script together with its origin: it is *quoted* if it stems from such a label.

The layouts are repeated here with glyphs, one definition for each of theirs, down to the physical
lines that the layout of a moment list indents (`Translation.glyphs`). Without their origins, the
glyphs are the text of the script (`plain_glyphs`). -/

namespace CircuitTrace

/-- A character of a script with its origin. -/
structure Glyph where
  /-- The character. -/
  char : Char
  /-- It is taken over from the label of an unhandled operation. -/
  quoted : Bool
  deriving DecidableEq

namespace Glyph

/-- The translation's own text. -/
def own (s : String) : List Glyph := s.toList.map (⟨·, false⟩)

/-- The text of a label. -/
def quote (label : String) : List Glyph := label.toList.map (⟨·, true⟩)

/-- Labels with commas between them. -/
def quoteAll (labels : List String) : List Glyph := (own ", ").intercalate (labels.map quote)

/-- The text of glyphs. -/
def plain (s : List Glyph) : String := String.ofList (s.map Glyph.char)

@[simp] theorem plain_nil : plain [] = "" := rfl

@[simp] theorem plain_own (s : String) : plain (own s) = s := by
  unfold plain own
  rw [List.map_map]
  exact (congrArg String.ofList (List.map_id _)).trans String.ofList_toList

@[simp] theorem plain_quote (label : String) : plain (quote label) = label := by
  unfold plain quote
  rw [List.map_map]
  exact (congrArg String.ofList (List.map_id _)).trans String.ofList_toList

@[simp] theorem plain_append (s s' : List Glyph) : plain (s ++ s') = plain s ++ plain s' := by
  unfold plain
  rw [List.map_append, String.ofList_append]

@[simp] theorem plain_intercalate (sep : List Glyph) : ∀ ss : List (List Glyph),
    plain (sep.intercalate ss) = (plain sep).intercalate (ss.map plain)
  | [] => rfl
  | [s] => by simp
  | s :: s' :: ss => by
    rw [List.intercalate_cons_cons, plain_append, plain_append, plain_intercalate sep (s' :: ss)]
    refine String.ext ?_
    simp only [String.toList_append, String.toList_intercalate, List.map_cons,
      List.intercalate_cons_cons]

theorem plain_quoteAll (labels : List String) :
    plain (quoteAll labels) = String.intercalate ", " labels := by
  unfold quoteAll
  rw [plain_intercalate, List.map_map, plain_own]
  refine congrArg _ ((List.map_congr_left fun label _ => ?_).trans (List.map_id labels))
  exact plain_quote label

/-! ### Physical lines -/

/-- The end of a line that a line feed closes. The line is given backwards. -/
def closeLine : List Glyph → List Glyph
  | ⟨'\r', _⟩ :: line => line.reverse
  | line => line.reverse

/-- The physical lines of glyphs, when the line read so far is `line`, backwards. -/
def physicalLinesFrom (line : List Glyph) : List Glyph → List (List Glyph)
  | [] => if line.isEmpty then [] else [line.reverse]
  | ⟨'\n', _⟩ :: s => closeLine line :: physicalLinesFrom [] s
  | g :: s => physicalLinesFrom (g :: line) s

/-- The physical lines of glyphs. -/
def physicalLines (s : List Glyph) : List (List Glyph) := physicalLinesFrom [] s

theorem map_char_closeLine (line : List Glyph) :
    (closeLine line).map char = Text.closeLine (line.map char) := by
  rcases line with _ | ⟨⟨c, quoted⟩, line⟩
  · rfl
  · by_cases hc : c = '\r'
    · subst hc
      exact List.map_reverse
    · rw [closeLine, List.map_cons, Text.closeLine, List.map_reverse, List.map_cons] <;>
        simp [hc]

theorem map_char_physicalLinesFrom : ∀ s line : List Glyph,
    (physicalLinesFrom line s).map (List.map char) =
      Text.physicalLinesFrom (line.map char) (s.map char)
  | [], line => by
    rw [physicalLinesFrom, List.map_nil, Text.physicalLinesFrom]
    rcases line with _ | ⟨g, line⟩
    · rfl
    · simp
  | ⟨c, quoted⟩ :: s, line => by
    by_cases hc : c = '\n'
    · subst hc
      rw [physicalLinesFrom, List.map_cons, map_char_closeLine, map_char_physicalLinesFrom s []]
      rfl
    · rw [physicalLinesFrom, map_char_physicalLinesFrom s, List.map_cons, List.map_cons,
        Text.physicalLinesFrom] <;> simp [hc]

end Glyph

open Glyph

/-! ### Instructions -/

/-- The glyphs of an instruction. -/
def Instruction.glyphs : Instruction → List Glyph
  | .unhandled label qubits => own "#" ++ quote label ++ own ("(" ++ renderQubits qubits ++ ")")
  | i => own i.render

@[simp] theorem Instruction.plain_glyphs (i : Instruction) : plain i.glyphs = i.render := by
  cases i with
  | unhandled label qubits =>
    calc plain (own "#" ++ quote label ++ own ("(" ++ renderQubits qubits ++ ")"))
        = "#" ++ label ++ ("(" ++ renderQubits qubits ++ ")") := by
          rw [plain_append, plain_append, plain_own, plain_own, plain_quote]
      _ = "#" ++ label ++ "(" ++ renderQubits qubits ++ ")" := by simp only [String.append_assoc]
  | gate | rotation | measure => simp only [glyphs, plain_own]

/-- The glyphs of a primitive. -/
def Primitive.glyphs (p : Primitive) : List Glyph :=
  p.instruction.glyphs ++
    own (if p.controls.isEmpty then "" else ".controlled_by(" ++ renderQubits p.controls ++ ")")

@[simp] theorem Primitive.plain_glyphs (p : Primitive) : plain p.glyphs = p.render := by
  rw [glyphs, render, plain_append, plain_own, Instruction.plain_glyphs]

/-- The glyphs of a line. -/
def ScriptLine.glyphs (l : ScriptLine) : List Glyph := l.primitive.glyphs

@[simp] theorem ScriptLine.plain_glyphs (l : ScriptLine) : plain l.glyphs = l.render :=
  Primitive.plain_glyphs _

/-! ### Moments -/

/-- The glyphs of the statement that adds a moment to a collection. -/
def momentGlyphs (collection : String) (moment : List ScriptLine) : List Glyph :=
  if (moment.head?.map ScriptLine.isComment).getD false then
    (own "\n").intercalate (moment.map ScriptLine.glyphs)
  else
    own (collection ++ ".append([") ++ (own ", ").intercalate (moment.map ScriptLine.glyphs) ++
      own "])"

theorem plain_momentGlyphs (collection : String) (moment : List ScriptLine) :
    plain (momentGlyphs collection moment) = renderMoment collection moment := by
  have hlines : (moment.map ScriptLine.glyphs).map plain = moment.map ScriptLine.render := by
    rw [List.map_map]
    exact List.map_congr_left fun l _ => ScriptLine.plain_glyphs l
  unfold momentGlyphs renderMoment
  split_ifs
  · rw [plain_intercalate, plain_own, hlines]
  · rw [plain_append, plain_append, plain_intercalate, plain_own, plain_own, plain_own, hlines]

namespace Translation

/-- The physical lines of glyphs, each behind four spaces. -/
def indentedGlyphs (s : List Glyph) : List (List Glyph) :=
  (physicalLines s).map fun line => own "    " ++ line

theorem map_plain_indentedGlyphs (s : List Glyph) :
    (indentedGlyphs s).map plain = indented (plain s) := by
  have hlines : (physicalLines s).map (List.map char) = Text.physicalLines (plain s).toList := by
    rw [plain, String.toList_ofList]
    exact map_char_physicalLinesFrom s []
  rw [indented, ← hlines, indentedGlyphs, List.map_map, List.map_map]
  refine List.map_congr_left fun line _ => ?_
  exact (plain_append _ _).trans (congrArg (· ++ plain line) (plain_own _))

/-! ### Layouts -/

/-- The glyphs of the comments at the head of a script. -/
def headerGlyphs (t : Translation) (numQubits : Nat) : List (List Glyph) :=
  own ("# Qubits: " ++ toString numQubits) ::
    if t.gatesErrored.isEmpty then []
    else [own "# Operations that did not call a primitive gate: " ++ quoteAll t.gatesErrored]

theorem map_plain_headerGlyphs (t : Translation) (numQubits : Nat) :
    (t.headerGlyphs numQubits).map plain = t.header numQubits := by
  unfold headerGlyphs header
  split_ifs
  · rw [List.map_singleton, plain_own]
  · rw [List.map_cons, List.map_singleton, plain_append, plain_own, plain_own, plain_quoteAll]

/-- The glyphs of a prologue: the comments at the head, and what is behind them. -/
def prologueGlyphs (t : Translation) (numQubits : Nat) (prologue : List String) :
    List (List Glyph) :=
  t.headerGlyphs numQubits ++ (prologue.drop (t.header numQubits).length).map own

theorem map_plain_own (lines : List String) : (lines.map own).map plain = lines := by
  rw [List.map_map]
  exact (List.map_congr_left fun s _ => plain_own s).trans (List.map_id lines)

theorem map_plain_prologueGlyphs (t : Translation) (numQubits : Nat) {prologue : List String}
    (h : t.header numQubits <+: prologue) :
    (t.prologueGlyphs numQubits prologue).map plain = prologue := by
  obtain ⟨rest, rfl⟩ := h
  rw [prologueGlyphs, List.drop_left, List.map_append, map_plain_headerGlyphs, map_plain_own]

theorem header_prefix_flatPrologue (t : Translation) (numQubits : Nat) :
    t.header numQubits <+: t.flatPrologue numQubits := by
  unfold flatPrologue
  rw [List.append_assoc, List.append_assoc]
  exact List.prefix_append _ _

theorem header_prefix_momentListPrologue (t : Translation) (numQubits : Nat) :
    t.header numQubits <+: t.momentListPrologue numQubits := by
  unfold momentListPrologue
  rw [List.append_assoc, List.append_assoc]
  exact List.prefix_append _ _

/-- The glyphs of the lines that a layout puts below each other. -/
def lineGlyphs (t : Translation) (numQubits : Nat) : List (List Glyph) :=
  match t.config.dialect with
  | .flat =>
    t.prologueGlyphs numQubits (t.flatPrologue numQubits) ++
      (moments t.lines).map (momentGlyphs "circuit")
  | .momentList =>
    t.prologueGlyphs numQubits (t.momentListPrologue numQubits) ++
      (moments t.lines).flatMap (fun m => indentedGlyphs (momentGlyphs "moments" m)) ++
      momentListEpilogue.map own

/-- **The glyphs of a script.** -/
def glyphs (t : Translation) (numQubits : Nat) : List Glyph :=
  (t.lineGlyphs numQubits).flatMap (· ++ own "\n")

theorem plain_flatMap_lines : ∀ lines : List (List Glyph),
    plain (lines.flatMap (· ++ own "\n")) = unlines (lines.map plain)
  | [] => rfl
  | line :: lines => by
    rw [List.flatMap_cons, plain_append, plain_append, plain_own, plain_flatMap_lines lines]
    refine String.ext ?_
    simp [unlines, String.toList_join]

/-- **Without their origins, the glyphs are the text of the script.** -/
theorem plain_glyphs (t : Translation) (numQubits : Nat) :
    plain (t.glyphs numQubits) = t.render numQubits := by
  rw [glyphs, plain_flatMap_lines, render, lineGlyphs]
  rcases t.config.dialect with _ | _
  · simp only [List.map_append, map_plain_prologueGlyphs t _ (header_prefix_flatPrologue t _),
      List.map_map, renderFlat]
    congr 2
    exact List.map_congr_left fun m _ => plain_momentGlyphs _ m
  · simp only [List.map_append,
      map_plain_prologueGlyphs t _ (header_prefix_momentListPrologue t _), map_plain_own,
      List.map_flatMap, renderMomentList]
    congr 3
    refine congrArg (List.flatMap · _) (funext fun m => ?_)
    rw [map_plain_indentedGlyphs, plain_momentGlyphs]

end Translation

end CircuitTrace
