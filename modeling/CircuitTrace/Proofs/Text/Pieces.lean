import CircuitTrace.Text.Blank
import CircuitTrace.Text.Pieces
import CircuitTrace.Text.Word
import Mathlib.Data.List.DropRight

/-! # Where a text is cut, and the blanks around a word

A text is cut at a separator in one way: what stands before the first separator is determined
(`eq_of_append_cons`), and `pieces` finds it (`pieces_eq_cons_iff`). In the same way a text has at
most one word that starts and ends with a character that is not blank and has only blanks around it
(`InBlanks`, `Trimmed`), and `trim` finds it (`InBlanks.trim_eq`). A word of word characters is such
a word, as these are not blank (`isBlank_of_isWordChar`). Letters are compared by their lower case
(`toLower_eq_toLower_iff`). -/

namespace CircuitTrace.Text

/-! ### Separators -/

section Separator
variable {sep : Char} {s a a' b b' p : List Char} {ps : List (List Char)}

/-- The pieces are those of the library's `splitOn`. -/
theorem pieces_eq_splitOn (sep : Char) (s : List Char) : pieces sep s = s.splitOn sep := by
  induction s with
  | nil => rfl
  | cons c s ih =>
    rw [pieces, ih, List.splitOn_cons_eq_if_modifyHead]
    by_cases hc : c = sep
    · rw [if_pos hc, if_pos (by simpa using hc)]
    · rw [if_neg hc, if_neg (by simpa using hc)]
      cases h : s.splitOn sep with
      | nil => exact absurd h (List.splitOn_ne_nil sep s)
      | cons p ps => rfl

theorem pieces_of_notMem (h : sep ∉ s) : pieces sep s = [s] := by
  rw [pieces_eq_splitOn, List.splitOn_eq_singleton h]

theorem pieces_append_cons (h : sep ∉ a) : pieces sep (a ++ sep :: b) = a :: pieces sep b := by
  rw [pieces_eq_splitOn, List.splitOn_append_cons_self_of_not_mem h, pieces_eq_splitOn]

/-- **The first piece is what stands before the first separator.** -/
theorem pieces_eq_cons_iff :
    pieces sep s = p :: ps ↔
      sep ∉ p ∧ (s = p ∧ ps = [] ∨ ∃ t, s = p ++ sep :: t ∧ ps = pieces sep t) := by
  constructor
  · intro h
    by_cases hs : sep ∈ s
    · obtain ⟨a, b, rfl, ha⟩ := List.eq_append_cons_of_mem hs
      rw [pieces_append_cons ha] at h
      obtain ⟨rfl, rfl⟩ := List.cons.inj h
      exact ⟨ha, .inr ⟨b, rfl, rfl⟩⟩
    · rw [pieces_of_notMem hs] at h
      obtain ⟨rfl, rfl⟩ := List.cons.inj h
      exact ⟨hs, .inl ⟨rfl, rfl⟩⟩
  · rintro ⟨hp, ⟨rfl, rfl⟩ | ⟨t, rfl, rfl⟩⟩
    · exact pieces_of_notMem hp
    · exact pieces_append_cons hp

theorem pieces_ne_nil (sep : Char) (s : List Char) : pieces sep s ≠ [] := by
  rw [pieces_eq_splitOn]
  exact List.splitOn_ne_nil sep s

theorem pieces_eq_singleton_iff : pieces sep s = [p] ↔ sep ∉ p ∧ s = p := by
  simp [pieces_eq_cons_iff, (pieces_ne_nil sep _).symm]

theorem pieces_eq_pair_iff {q : List Char} :
    pieces sep s = [p, q] ↔ sep ∉ p ∧ sep ∉ q ∧ s = p ++ sep :: q := by
  rw [pieces_eq_cons_iff]
  constructor
  · rintro ⟨hp, ⟨-, h⟩ | ⟨t, rfl, h⟩⟩
    · cases h
    · obtain ⟨hq, rfl⟩ := pieces_eq_singleton_iff.1 h.symm
      exact ⟨hp, hq, rfl⟩
  · rintro ⟨hp, hq, rfl⟩
    exact ⟨hp, .inr ⟨q, rfl, (pieces_of_notMem hq).symm⟩⟩

/-- **A text is cut at its first separator in one way.** -/
theorem eq_of_append_cons (ha : sep ∉ a) (ha' : sep ∉ a') (h : a ++ sep :: b = a' ++ sep :: b') :
    a = a' := by
  have hp : a :: pieces sep b = a' :: pieces sep b' := by
    rw [← pieces_append_cons ha, h, pieces_append_cons ha']
  exact (List.cons.inj hp).1

theorem cutFirst_append_cons (h : sep ∉ a) : cutFirst sep (a ++ sep :: b) = some (a, b) := by
  induction a with
  | nil => exact if_pos rfl
  | cons c a ih =>
    obtain ⟨hc, ha⟩ : sep ≠ c ∧ sep ∉ a := by simpa using h
    rw [List.cons_append, cutFirst, if_neg (Ne.symm hc), ih ha]
    rfl

/-- **A text is cut first** where its first separator stands. -/
theorem cutFirst_eq_some_iff : cutFirst sep s = some (a, b) ↔ s = a ++ sep :: b ∧ sep ∉ a := by
  constructor
  · intro h
    induction s generalizing a with
    | nil => cases h
    | cons c s ih =>
      rw [cutFirst] at h
      split at h
      · next hc =>
        obtain ⟨rfl, rfl⟩ := Prod.mk.inj (Option.some.inj h)
        exact ⟨by rw [hc]; rfl, List.not_mem_nil⟩
      · next hc =>
        obtain ⟨⟨a', b'⟩, hcut, hab⟩ := Option.map_eq_some_iff.1 h
        obtain ⟨rfl, rfl⟩ := Prod.mk.inj hab
        obtain ⟨rfl, ha⟩ := ih hcut
        exact ⟨rfl, by simp [ha, Ne.symm hc]⟩
  · rintro ⟨rfl, h⟩
    exact cutFirst_append_cons h

end Separator

/-- The bracketed texts are those between round brackets. -/
theorem unbracket_eq_some_iff {s t : List Char} :
    unbracket s = some t ↔ s = '(' :: (t ++ [')']) := by
  constructor
  · intro h
    unfold unbracket at h
    split at h
    · next s =>
      split at h
      · next hlast =>
        rw [← Option.some.inj h, List.dropLast_append_getLast? _ hlast]
      · cases h
    · cases h
  · rintro rfl
    simp [unbracket]

/-! ### Blanks -/

section Blanks
variable {s t word word' : List Char} {c : Char}

/-- The text is the word with blanks around it. -/
def InBlanks (word s : List Char) : Prop :=
  ∃ front back, s = front ++ word ++ back ∧ front.all isBlank ∧ back.all isBlank

/-- The word is not empty, and neither its first nor its last character is blank. -/
structure Trimmed (word : List Char) : Prop where
  ne_nil : word ≠ []
  first : ∀ c ∈ word.head?, isBlank c = false
  last : ∀ c ∈ word.getLast?, isBlank c = false

theorem Trimmed.of_ends {s : List Char} {a b : Char} (hfirst : s.head? = some a)
    (hlast : s.getLast? = some b) (ha : isBlank a = false) (hb : isBlank b = false) :
    Trimmed s where
  ne_nil h := by simp [h] at hfirst
  first c hc := by rwa [← Option.some.inj (hfirst.symm.trans hc)]
  last c hc := by rwa [← Option.some.inj (hlast.symm.trans hc)]

theorem Trimmed.of_forall {s : List Char} (hne : s ≠ []) (h : ∀ c ∈ s, isBlank c = false) :
    Trimmed s where
  ne_nil := hne
  first c hc := h c (List.mem_of_mem_head? hc)
  last c hc := h c (List.mem_of_mem_getLast? hc)

theorem trimRight_eq (s : List Char) : trimRight s = s.rdropWhile isBlank := rfl

theorem trim_eq_nil_iff : trim s = [] ↔ s.all isBlank := by
  rw [trim, trimRight_eq, List.rdropWhile_eq_nil_iff, List.all_eq_true]
  constructor
  · intro h c hc
    rw [← List.takeWhile_append_dropWhile (p := isBlank) (l := s), List.mem_append] at hc
    exact hc.elim (fun hc => List.mem_takeWhile_imp hc) (h c)
  · exact fun h c hc => h c ((List.dropWhile_suffix _).subset hc)

theorem inBlanks_trim (s : List Char) : InBlanks (trim s) s := by
  refine ⟨s.takeWhile isBlank, (trimLeft s).rtakeWhile isBlank, ?_, ?_, ?_⟩
  · rw [List.append_assoc, trim, trimRight_eq, List.rdropWhile_append_rtakeWhile, trimLeft,
      List.takeWhile_append_dropWhile]
  · exact List.all_takeWhile
  · exact List.all_eq_true.2 fun c hc => List.mem_rtakeWhile_imp hc

theorem trimmed_trim (h : trim s ≠ []) : Trimmed (trim s) where
  ne_nil := h
  first c hc := by
    obtain ⟨t, ht⟩ : trim s <+: trimLeft s := List.rdropWhile_prefix _ _
    obtain ⟨d, rest, hd⟩ := List.exists_cons_of_ne_nil h
    obtain rfl : d = c := by simpa [hd] using hc
    have hcons : s.dropWhile isBlank = d :: (rest ++ t) := by rw [← trimLeft, ← ht, hd]; rfl
    have hhead := List.head?_dropWhile_not isBlank s
    rw [hcons] at hhead
    exact hhead
  last c hc := by
    obtain ⟨_, rfl⟩ := List.mem_getLast?_eq_getLast hc
    exact Bool.eq_false_iff.2 (List.rdropWhile_last_not isBlank (trimLeft s) h)

theorem trimLeft_append_cons {w : List Char} (hc : isBlank c = false) (hw : w.all isBlank) :
    trimLeft (w ++ c :: t) = c :: t := by
  rw [trimLeft, List.dropWhile_append_of_pos (by simpa using hw)]
  exact List.dropWhile_cons_of_neg (by simp [hc])

/-- What a text starts with behind its leading blanks. -/
theorem trimLeft_eq_cons_iff (hc : isBlank c = false) :
    trimLeft s = c :: t ↔ ∃ w, s = w ++ c :: t ∧ w.all isBlank := by
  constructor
  · intro h
    refine ⟨s.takeWhile isBlank, ?_, List.all_takeWhile⟩
    rw [← h, trimLeft, List.takeWhile_append_dropWhile]
  · rintro ⟨w, rfl, hw⟩
    exact trimLeft_append_cons hc hw

/-- **`trim` finds the word.** -/
theorem InBlanks.trim_eq (h : InBlanks word s) (hw : Trimmed word) : trim s = word := by
  obtain ⟨front, back, rfl, hfront, hback⟩ := h
  have hleft : trimLeft (front ++ word ++ back) = word ++ back := by
    rw [trimLeft, List.append_assoc, List.dropWhile_append_of_pos (by simpa using hfront)]
    obtain ⟨c, rest, rfl⟩ := List.exists_cons_of_ne_nil hw.ne_nil
    exact List.dropWhile_cons_of_neg (by simp [hw.first c rfl])
  have hright : trimRight (word ++ back) = word := by
    rw [trimRight, List.reverse_append, List.dropWhile_append_of_pos (by simpa using hback)]
    refine List.rdropWhile_eq_self_iff.2 fun hne => ?_
    rw [hw.last _ (List.getLast?_eq_some_getLast hne)]
    exact Bool.false_ne_true
  rw [trim, hleft, hright]

theorem Trimmed.trim_eq (h : Trimmed word) : trim word = word :=
  InBlanks.trim_eq ⟨[], [], by simp, rfl, rfl⟩ h

end Blanks

/-! ### Words -/

/-- Classes with different ranges have no character in common. -/
theorem inRanges_eq_false_of_apart {ranges others : List CharRange}
    (hapart : ranges.all fun r => others.all fun b => Nat.blt r.2 b.1 || Nat.blt b.2 r.1)
    {c : Char} (h : inRanges ranges c) : inRanges others c = false := by
  obtain ⟨r, hr, hc⟩ := List.any_eq_true.1 h
  refine Bool.eq_false_iff.2 fun hother => ?_
  obtain ⟨b, hb, hc'⟩ := List.any_eq_true.1 hother
  have hrb := List.all_eq_true.1 (List.all_eq_true.1 hapart r hr) b hb
  simp only [Bool.and_eq_true, Bool.or_eq_true, decide_eq_true_eq, Nat.blt_eq] at hc hc' hrb
  omega

-- the table of the word characters is long
set_option maxRecDepth 20000 in
/-- The word characters and the blanks lie in different ranges. -/
theorem wordChars_apart_blankChars :
    wordChars.all fun r => blankChars.all fun b => Nat.blt r.2 b.1 || Nat.blt b.2 r.1 := by
  rfl

theorem isBlank_of_isWordChar {c : Char} (h : isWordChar c) : isBlank c = false :=
  inRanges_eq_false_of_apart wordChars_apart_blankChars h

theorem trimmed_of_isWordChar {s : List Char} (hne : s ≠ []) (h : s.all isWordChar) : Trimmed s :=
  .of_forall hne fun c hc => isBlank_of_isWordChar (List.all_eq_true.1 h c hc)

set_option maxRecDepth 20000 in
theorem isWordChar_comma : isWordChar ',' = false := by decide

/-! ### Cases of letters -/

theorem toNat_toLower (c : Char) :
    c.toLower.toNat = if 65 ≤ c.toNat ∧ c.toNat ≤ 90 then c.toNat + 32 else c.toNat := by
  unfold Char.toLower
  by_cases h : c.val ≥ 'A'.val ∧ c.val ≤ 'Z'.val
  · have hupper : 65 ≤ c.toNat ∧ c.toNat ≤ 90 := h
    rw [dif_pos h, if_pos hupper]
    show (c.val + ('a'.val - 'A'.val)).toNat = c.val.toNat + 32
    have hsmall : c.val.toNat ≤ 90 := hupper.2
    rw [UInt32.toNat_add]
    show (c.val.toNat + 32) % 2 ^ 32 = c.val.toNat + 32
    omega
  · have hupper : ¬ (65 ≤ c.toNat ∧ c.toNat ≤ 90) := h
    rw [dif_neg h, if_neg hupper]

/-- The characters with the same lower case as an upper-case letter are its two cases. -/
theorem toLower_eq_toLower_iff {c u : Char} (hu : 65 ≤ u.toNat ∧ u.toNat ≤ 90) :
    c.toLower = u.toLower ↔ c = u ∨ c = u.toLower := by
  simp only [← Char.toNat_inj, toNat_toLower, if_pos hu]
  split <;> omega

end CircuitTrace.Text
