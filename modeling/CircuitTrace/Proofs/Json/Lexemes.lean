import CircuitTrace.Json.Decoding
import CircuitTrace.Json.Printer
import Mathlib.Tactic.IntervalCases
import Mathlib.Tactic.SplitIfs

/-! # Strings and numbers as they are written

A text is written between quotes in such a way that it is read back (`unescape?_escape`), and a
number by its decimal digits (`readNat_nat`). Both are one token of the text that they stand in:
a string wherever it stands (`tokensFrom_quotedBody`), and a number if it does not go on in what
comes behind it (`tokensFrom_toDigits`). -/

namespace CircuitTrace.Json

/-! ### Escapes -/

/-- **The ways of writing a character**: with a letter, by its number, or as it is. -/
theorem escapeChar_cases (c : Char) :
    (∃ e, escapeChar c = ['\\', e] ∧ e ≠ 'u' ∧ letterEscape? e = some c) ∨
      (escapeChar c = ['\\', 'u', '0', '0', hexDigit (c.toNat / 16), hexDigit (c.toNat % 16)] ∧
        c.toNat < 0x20) ∨
      (escapeChar c = [c] ∧ c ≠ '\x22' ∧ c ≠ '\\' ∧ ¬ c.toNat < 0x20) := by
  unfold escapeChar
  split_ifs with hquote hbackslash h1 h2 h3 h4 h5 hcontrol
  · exact .inl ⟨_, rfl, by decide, by subst hquote; decide⟩
  · exact .inl ⟨_, rfl, by decide, by subst hbackslash; decide⟩
  · exact .inl ⟨_, rfl, by decide, by subst h1; decide⟩
  · exact .inl ⟨_, rfl, by decide, by subst h2; decide⟩
  · exact .inl ⟨_, rfl, by decide, by subst h3; decide⟩
  · exact .inl ⟨_, rfl, by decide, by subst h4; decide⟩
  · exact .inl ⟨_, rfl, by decide, by subst h5; decide⟩
  · exact .inr (.inl ⟨rfl, hcontrol⟩)
  · exact .inr (.inr ⟨rfl, hquote, hbackslash, hcontrol⟩)

theorem hexValue?_hexDigit {n : Nat} (h : n < 16) : hexValue? (hexDigit n) = some n := by
  have hall : ∀ k : Fin 16, hexValue? (hexDigit k) = some k.val := by decide
  exact hall ⟨n, h⟩

theorem fourHex?_hexDigit {n : Nat} (h : n < 0x20) :
    fourHex? '0' '0' (hexDigit (n / 16)) (hexDigit (n % 16)) = some n := by
  have hzero : hexValue? '0' = some 0 := by decide
  unfold fourHex?
  rw [hzero, hexValue?_hexDigit (by omega), hexValue?_hexDigit (by omega)]
  simp only
  congr 1
  omega

theorem bodyPieces?_letter {e c : Char} (hu : e ≠ 'u') (h : letterEscape? e = some c)
    (s : List Char) : bodyPieces? ('\\' :: e :: s) = (bodyPieces? s).map (.char c :: ·) := by
  rw [bodyPieces?, h]
  · cases bodyPieces? s <;> rfl
  · rintro _ _ _ _ _ rfl
    exact absurd rfl hu

theorem bodyPieces?_number {a b c d : Char} {n : Nat} (h : fourHex? a b c d = some n)
    (s : List Char) :
    bodyPieces? ('\\' :: 'u' :: a :: b :: c :: d :: s) = (bodyPieces? s).map (.unit n :: ·) := by
  rw [bodyPieces?, h]
  cases bodyPieces? s <;> rfl

theorem bodyPieces?_plain {c : Char} (h : c ≠ '\\') (s : List Char) :
    bodyPieces? (c :: s) = (bodyPieces? s).map (.char c :: ·) := by
  rw [bodyPieces?]
  · rintro _ _ _ _ _ rfl
    exact absurd rfl h
  · rintro _ _ rfl
    exact absurd rfl h
  · rintro rfl
    exact absurd rfl h

/-- A code unit below the surrogates is a character of its own. -/
theorem joinPieces?_unit {n : Nat} (h : n < 0x20) (ps : List Piece) :
    joinPieces? (.unit n :: ps) = (joinPieces? ps).map (Char.ofNat n :: ·) := by
  have hhigh : isHighHalf n = false := by simp [isHighHalf]; omega
  have hlow : isLowHalf n = false := by simp [isLowHalf]; omega
  -- what comes next is looked at only behind the first half of a character
  rcases ps with _ | ⟨c | m, ps⟩
  · simp [joinPieces?, hhigh, hlow]
  · simp [joinPieces?, hhigh, hlow]
  · rw [joinPieces?]
    simp [hhigh, hlow]

/-- **A character is read back** from the way it is written. -/
theorem exists_piece (c : Char) :
    ∃ p, (∀ s, bodyPieces? (escapeChar c ++ s) = (bodyPieces? s).map (p :: ·)) ∧
      ∀ ps, joinPieces? (p :: ps) = (joinPieces? ps).map (c :: ·) := by
  have hchar : ∀ ps, joinPieces? (.char c :: ps) = (joinPieces? ps).map (c :: ·) := fun ps => by
    rw [joinPieces?]
  rcases escapeChar_cases c with ⟨e, hc, hu, he⟩ | ⟨hc, hn⟩ | ⟨hc, -, hbackslash, -⟩ <;> rw [hc]
  · exact ⟨.char c, bodyPieces?_letter hu he, hchar⟩
  · refine ⟨.unit c.toNat, bodyPieces?_number (fourHex?_hexDigit hn), fun ps => ?_⟩
    rw [joinPieces?_unit hn, Char.ofNat_toNat]
  · exact ⟨.char c, bodyPieces?_plain hbackslash, hchar⟩

/-- **A text is read back** from what is written between quotes. -/
theorem unescape?_escape (s : List Char) : unescape? (escape s) = some s := by
  unfold unescape?
  induction s with
  | nil => rfl
  | cons c s ih =>
    obtain ⟨p, hpieces, hjoin⟩ := exists_piece c
    have hsplit : escape (c :: s) = escapeChar c ++ escape s := rfl
    rw [hsplit, hpieces]
    rcases hs : bodyPieces? (escape s) with _ | ps <;> rw [hs] at ih
    · cases ih
    · have hps : joinPieces? ps = some s := ih
      simp [hjoin, hps]

theorem readText_text (s : String) : readText (text s) = .ok s := by
  unfold text readText
  simp only [unescape?_escape, String.ofList_toList]

/-! ### Strings as tokens -/

/-- What is written for a character does not end the string that it stands in. -/
theorem tokensFrom_escapeChar (c : Char) (body rest : List Char) :
    tokensFrom (.string body) (escapeChar c ++ rest) =
      tokensFrom (.string ((escapeChar c).reverse ++ body)) rest := by
  have hzero : (hexValue? '0').isSome = true := by decide
  rcases escapeChar_cases c with ⟨e, hc, hu, he⟩ | ⟨hc, hn⟩ | ⟨hc, hquote, hbackslash, hcontrol⟩
  · simp [hc, tokensFrom, hu, he]
  · have hfirst := hexValue?_hexDigit (n := c.toNat / 16) (by omega)
    have hsecond := hexValue?_hexDigit (n := c.toNat % 16) (by omega)
    simp [hc, tokensFrom, hzero, hfirst, hsecond]
  · simp [hc, tokensFrom, hquote, hbackslash, hcontrol]

theorem tokensFrom_escape (s body rest : List Char) :
    tokensFrom (.string body) (escape s ++ rest) =
      tokensFrom (.string ((escape s).reverse ++ body)) rest := by
  induction s generalizing body with
  | nil => rfl
  | cons c s ih =>
    have hsplit : escape (c :: s) = escapeChar c ++ escape s := rfl
    rw [hsplit, List.append_assoc, tokensFrom_escapeChar, ih, List.reverse_append,
      List.append_assoc]

/-- **A quoted text is one token.** -/
theorem tokensFrom_quotedBody (s rest : List Char) :
    tokensFrom .between (quotedBody (escape s) ++ rest) =
      .str (escape s) :: tokensFrom .between rest := by
  have hopen : tokensFrom .between (quotedBody (escape s) ++ rest) =
      tokensFrom (.string []) (escape s ++ '\x22' :: rest) := by
    simp [quotedBody, tokensFrom, startToken]
  rw [hopen, tokensFrom_escape]
  simp [tokensFrom]

/-! ### Numbers -/

theorem isDigit_eq (c : Char) : isDigit c = c.isDigit := by
  unfold isDigit Char.isDigit
  rfl

theorem isDigit_of_mem_toDigits {n : Nat} {c : Char} (h : c ∈ Nat.toDigits 10 n) :
    isDigit c = true := by
  rw [isDigit_eq]
  exact Nat.isDigit_of_mem_toDigits (by omega) (by omega) h

theorem digitsValue_toDigits (n : Nat) : digitsValue (Nat.toDigits 10 n) = n := by
  have hvalue : digitsValue (Nat.toDigits 10 n) = Nat.ofDigitChars 10 (Nat.toDigits 10 n) 0 := by
    unfold digitsValue Nat.ofDigitChars
    simp only [Nat.mul_comm]
  rw [hvalue, Nat.ofDigitChars_ten_toDigits]

/-- **A number is read back** from its digits. -/
theorem readNat_nat {bound n : Nat} (h : n < bound) : readNat bound (nat n) = .ok n := by
  have hdigits : (Nat.toDigits 10 n).all isDigit = true :=
    List.all_eq_true.mpr fun c hc => isDigit_of_mem_toDigits hc
  unfold nat readNat
  simp [hdigits, digitsValue_toDigits, h]

/-- A positive number does not start with a zero. -/
theorem exists_toDigits {n : Nat} (h : 0 < n) :
    ∃ k ds, Nat.toDigits 10 n = Nat.digitChar k :: ds ∧ 0 < k ∧ k < 10 := by
  induction n using Nat.strongRecOn with
  | ind n ih =>
    by_cases hten : n < 10
    · exact ⟨n, [], Nat.toDigits_of_lt_base hten, h, hten⟩
    · obtain ⟨k, ds, hds, hk⟩ := ih (n / 10) (by omega) (by omega)
      refine ⟨k, ds ++ [Nat.digitChar (n % 10)], ?_, hk⟩
      rw [Nat.toDigits_of_base_le (by omega) (by omega), hds, List.cons_append]

/-- **A number ends in front of the text**: the text does not go on with it. -/
def Delimited (rest : List Char) : Prop := ∀ c ∈ rest.head?, NumberPart.integer.next? c = none

theorem delimited_nil : Delimited [] := by simp [Delimited]

theorem delimited_cons {c : Char} (h : NumberPart.integer.next? c = none) (rest : List Char) :
    Delimited (c :: rest) := by
  simpa [Delimited] using h

theorem next?_zero_of_integer {c : Char} (h : NumberPart.integer.next? c = none) :
    NumberPart.zero.next? c = none := by
  unfold NumberPart.next? at h ⊢
  simp only at h ⊢
  split_ifs at h
  exact h

/-- A number that is complete ends in front of a text that it does not take. -/
theorem tokensFrom_number {part : NumberPart} (hcomplete : part.complete = true)
    {rest : List Char} (h : ∀ c ∈ rest.head?, part.next? c = none) (lexeme : List Char) :
    tokensFrom (.number part lexeme) rest =
      .num lexeme.reverse :: tokensFrom .between rest := by
  rcases rest with _ | ⟨c, rest⟩
  · simp [tokensFrom, hcomplete]
  · have hc : part.next? c = none := h c rfl
    simp [tokensFrom, hc, hcomplete]

theorem tokensFrom_digits {ds rest : List Char} (hds : ∀ c ∈ ds, isDigit c = true)
    (h : Delimited rest) (lexeme : List Char) :
    tokensFrom (.number .integer lexeme) (ds ++ rest) =
      .num (lexeme.reverse ++ ds) :: tokensFrom .between rest := by
  induction ds generalizing lexeme with
  | nil => simpa using tokensFrom_number rfl h lexeme
  | cons d ds ih =>
    have hd : NumberPart.integer.next? d = some .integer := by
      simp [NumberPart.next?, hds d List.mem_cons_self]
    rw [List.cons_append, tokensFrom, hd]
    simp [ih fun c hc => hds c (List.mem_cons_of_mem d hc)]

/-- **A number is one token.** -/
theorem tokensFrom_toDigits (n : Nat) {rest : List Char} (h : Delimited rest) :
    tokensFrom .between (Nat.toDigits 10 n ++ rest) =
      .num (Nat.toDigits 10 n) :: tokensFrom .between rest := by
  -- zero is read apart from the other numbers, since no digit may follow it
  rcases Nat.eq_zero_or_pos n with rfl | hn
  · exact tokensFrom_number rfl (fun c hc => next?_zero_of_integer (h c hc)) ['0']
  · obtain ⟨k, ds, hds, hpos, hten⟩ := exists_toDigits hn
    have hstart : startToken (Nat.digitChar k) =
        some (.inr (.number .integer [Nat.digitChar k])) := by
      interval_cases k <;> rfl
    have hrest : ∀ c ∈ ds, isDigit c = true := fun c hc => by
      refine isDigit_of_mem_toDigits (n := n) ?_
      rw [hds]
      exact List.mem_cons_of_mem _ hc
    rw [hds, List.cons_append, tokensFrom, hstart]
    exact tokensFrom_digits hrest h [Nat.digitChar k]

end CircuitTrace.Json
