import CircuitTrace.Proofs.Text.Pieces

/-! # Digits and the numbers that they write

A decimal digit is a digit of any script, and none of them is a blank (`isBlank_of_isDecimalDigit`).
Only the ASCII digits, which are decimal digits (`isDecimalDigit_of_isDigit`), have a value. A text
writes a number if it is made of ASCII digits, and the number is then the one that they stand for in
base ten (`asciiNumber?_eq`). -/

namespace CircuitTrace.Text

/-! ### Classes of digits -/

section Classes
variable {c : Char}

/-- The decimal digits and the blanks lie in different ranges. -/
theorem decimalDigits_apart_blankChars :
    decimalDigits.all fun r => blankChars.all fun b => Nat.blt r.2 b.1 || Nat.blt b.2 r.1 := by
  rfl

theorem isBlank_of_isDecimalDigit (h : isDecimalDigit c) : isBlank c = false :=
  inRanges_eq_false_of_apart decimalDigits_apart_blankChars h

theorem isDecimalDigit_comma : isDecimalDigit ',' = false := by decide

theorem isDigit_iff : c.isDigit ↔ 0x30 ≤ c.toNat ∧ c.toNat ≤ 0x39 := by
  simp only [Char.isDigit, Bool.and_eq_true, decide_eq_true_eq]
  exact Iff.rfl

theorem isDecimalDigit_of_isDigit (h : c.isDigit) : isDecimalDigit c :=
  List.any_eq_true.2 ⟨(0x30, 0x39), .head _, by simpa [isDigit_iff] using h⟩

end Classes

/-! ### Numbers -/

section Numbers
variable {c : Char}

theorem digitValue?_of_isDigit (h : c.isDigit) : digitValue? c = some (c.toNat - '0'.toNat) :=
  if_pos (isDigit_iff.1 h)

theorem digitValue?_of_not_isDigit (h : ¬ c.isDigit) : digitValue? c = none :=
  if_neg fun hc => h (isDigit_iff.2 hc)

/-- The step by which a number takes in one more digit. -/
def addDigit (n : Option Nat) (c : Char) : Option Nat :=
  n.bind fun n => (digitValue? c).map (n * 10 + ·)

theorem foldl_addDigit_none (s : List Char) : s.foldl addDigit none = none := by
  induction s with
  | nil => rfl
  | cons c s ih => exact ih

/-- **What digits write behind a number**, if all of them are ASCII digits. -/
theorem foldl_addDigit_some (s : List Char) (n : Nat) :
    s.foldl addDigit (some n) =
      if s.all Char.isDigit then some (Nat.ofDigitChars 10 s n) else none := by
  induction s generalizing n with
  | nil => simp
  | cons c s ih =>
    by_cases hc : c.isDigit
    · have hstep : addDigit (some n) c = some (10 * n + (c.toNat - '0'.toNat)) := by
        simp [addDigit, digitValue?_of_isDigit hc, Nat.mul_comm]
      rw [List.foldl_cons, hstep, ih, Nat.ofDigitChars_cons, List.all_cons, hc, Bool.true_and]
    · have hstep : addDigit (some n) c = none := by
        simp [addDigit, digitValue?_of_not_isDigit hc]
      rw [List.foldl_cons, hstep, foldl_addDigit_none]
      simp [hc]

/-- **The number that a text writes**, if it is made of ASCII digits. -/
theorem asciiNumber?_eq (s : List Char) :
    asciiNumber? s = if s.all Char.isDigit then some (Nat.ofDigitChars 10 s 0) else none :=
  foldl_addDigit_some s 0

end Numbers

end CircuitTrace.Text
