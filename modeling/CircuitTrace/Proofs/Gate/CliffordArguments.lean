import CircuitTrace.Proofs.Gate.Component
import CircuitTrace.Proofs.Pauli.Names
import CircuitTrace.Proofs.Text.Digits

/-! # Which texts are the arguments of a Clifford element

The arguments of a Clifford element have a grammar (`CliffordArgs.Written`): in round brackets, the
digits of a number below 256, a comma, and the name of an operator, both with blanks around. They are
found in three stages. A pattern reads the frame (`CliffordArgs.pattern`), which admits the digits
and the word characters of all scripts; then the number and the name are taken from the two words
that the pattern keeps. The number is taken first, so digits that write no index are reported
whatever the other word is (`CliffordArgs.ofText_eq_outOfRange_iff`). -/

namespace CircuitTrace

/-! ### The reason of a fault -/

theorem getLast?_toList_append (s : String) {t : String} {c : Char}
    (h : t.toList.getLast? = some c) : (s ++ t).toList.getLast? = some c := by
  rw [String.toList_append, List.getLast?_append, h]
  rfl

/-- The reason tells that an index is out of range from the other faults. -/
theorem ArgumentFault.reason_eq_outOfRange_iff {fault : ArgumentFault} :
    fault.reason = "Clifford index out of range" ↔ fault = .indexOutOfRange := by
  constructor
  · intro h
    -- the reasons that show some data are told by their last letter
    have hlast : fault.reason.toList.getLast? = some 'e' := by rw [h]; rfl
    cases fault with
    | indexOutOfRange => rfl
    | unknownPauli e =>
      have hshown := getLast?_toList_append ("Cannot convert " ++ e.shown) (t := " to Pauli") rfl
      exact absurd (hlast.symm.trans hshown) (by decide)
    | lengthMismatch paulis qubits =>
      have hshown := getLast?_toList_append
        (toString paulis ++ " Paulis for " ++ toString qubits) (t := " target qubits") rfl
      exact absurd (hlast.symm.trans hshown) (by decide)
    | _ => exact absurd h (by decide)
  · rintro rfl
    rfl

namespace CliffordArgs

open Text Text.Pattern

/-! ### The grammar -/

/-- The text is a run of decimal digits and a word, with blanks around them and a comma between
them, in round brackets. -/
def Framed (s digits word : List Char) : Prop :=
  ∃ d p, s = '(' :: (d ++ ',' :: (p ++ [')'])) ∧
    (InBlanks digits d ∧ digits ≠ [] ∧ digits.all isDecimalDigit) ∧
    InBlanks word p ∧ word ≠ [] ∧ word.all isWordChar

/-- The digits write an index: they are ASCII digits, and their number is at most 255. Zeros may
lead them. -/
def WritesIndex (digits : List Char) (n : Nat) : Prop :=
  digits ≠ [] ∧ digits.all Char.isDigit ∧ Nat.ofDigitChars 10 digits 0 = n ∧ n ≤ 255

/-- The text is the arguments of a Clifford element. -/
def Written (s : List Char) (args : CliffordArgs) : Prop :=
  ∃ d p digits name, s = '(' :: (d ++ ',' :: (p ++ [')'])) ∧
    InBlanks digits d ∧ WritesIndex digits args.index ∧
    InBlanks name p ∧ args.pauli.HasName name

theorem written_iff {s : List Char} {args : CliffordArgs} :
    Written s args ↔
      ∃ digits name, Framed s digits name ∧ WritesIndex digits args.index ∧
        args.pauli.HasName name := by
  constructor
  · rintro ⟨d, p, digits, name, hs, hd, hindex, hp, hname⟩
    obtain ⟨hne, hdigits, hvalue⟩ := hindex
    have hdecimal : digits.all isDecimalDigit := List.all_eq_true.2 fun c hc =>
      isDecimalDigit_of_isDigit (List.all_eq_true.1 hdigits c hc)
    exact ⟨digits, name, ⟨d, p, hs, ⟨hd, hne, hdecimal⟩, hp, hname.ne_nil, hname.all_isWordChar⟩,
      ⟨hne, hdigits, hvalue⟩, hname⟩
  · rintro ⟨digits, name, ⟨d, p, hs, ⟨hd, -, -⟩, hp, -, -⟩, hindex, hname⟩
    exact ⟨d, p, digits, name, hs, hd, hindex, hp, hname⟩

/-! ### The arguments that are parsed -/

theorem parts?_eq_some_iff {s digits word : List Char} :
    parts? s = some (digits, word) ↔ Framed s digits word := by
  have hdigits := @wordOf?_eq_some_iff isDecimalDigit fun _ => isBlank_of_isDecimalDigit
  have hword := @wordOf?_eq_some_iff isWordChar fun _ => isBlank_of_isWordChar
  constructor
  · intro h
    unfold parts? at h
    split at h
    · next d p hs =>
      obtain ⟨u, hu, hpieces⟩ := Option.map_eq_some_iff.1 hs
      obtain ⟨-, -, rfl⟩ := pieces_eq_pair_iff.1 hpieces
      split at h
      · next digits word hd hp =>
        obtain ⟨rfl, rfl⟩ := Prod.mk.inj (Option.some.inj h)
        exact ⟨d, p, by simpa using unbracket_eq_some_iff.1 hu, hdigits.1 hd, hword.1 hp⟩
      · cases h
    · cases h
  · rintro ⟨d, p, rfl, hd, hp⟩
    have hu : unbracket ('(' :: (d ++ ',' :: (p ++ [')']))) = some (d ++ ',' :: p) :=
      unbracket_eq_some_iff.2 (by simp)
    have hpieces : pieces ',' (d ++ ',' :: p) = [d, p] :=
      pieces_eq_pair_iff.2 ⟨comma_notMem_of_inBlanks isDecimalDigit_comma hd.1 hd.2.2,
        comma_notMem_of_inBlanks isWordChar_comma hp.1 hp.2.2, rfl⟩
    rw [parts?, hu, Option.map_some, hpieces]
    simp only [hdigits.2 hd, hword.2 hp]

theorem index?_eq (digits : List Char) :
    index? digits =
      if digits.all Char.isDigit ∧ Nat.ofDigitChars 10 digits 0 ≤ 255 then
        some (Nat.ofDigitChars 10 digits 0)
      else none := by
  rw [index?, asciiNumber?_eq]
  by_cases hdigits : digits.all Char.isDigit
  · simp [hdigits, Nat.lt_succ_iff]
  · simp [hdigits]

theorem index?_eq_some_iff {digits : List Char} {n : Nat} (hne : digits ≠ []) :
    index? digits = some n ↔ WritesIndex digits n := by
  rw [index?_eq, Option.ite_none_right_eq_some, WritesIndex]
  constructor
  · rintro ⟨⟨hdigits, hn⟩, h⟩
    obtain rfl := Option.some.inj h
    exact ⟨hne, hdigits, rfl, hn⟩
  · rintro ⟨-, hdigits, rfl, hn⟩
    exact ⟨⟨hdigits, hn⟩, rfl⟩

theorem index?_eq_none_iff {digits : List Char} :
    index? digits = none ↔
      digits.all Char.isDigit = false ∨ 255 < Nat.ofDigitChars 10 digits 0 := by
  rw [index?_eq]
  simp [Classical.or_iff_not_imp_left]

theorem ofText_eq_ok_iff {s : List Char} {args : CliffordArgs} :
    ofText s = .ok args ↔ Written s args := by
  rw [written_iff]
  constructor
  · intro h
    unfold ofText at h
    split at h
    · cases h
    · next digits name hparts =>
      have hframed := parts?_eq_some_iff.1 hparts
      have ⟨_, _, _, ⟨_, hne, _⟩, _, hne', hword⟩ := hframed
      split at h
      · cases h
      · next n hn =>
        split at h
        · cases h
        · next p hp =>
          obtain rfl := Except.ok.inj h
          exact ⟨digits, name, hframed, (index?_eq_some_iff hne).1 hn,
            (Pauli.ofText_word_eq_ok_iff hne' hword).1 hp⟩
  · rintro ⟨digits, name, hframed, hindex, hname⟩
    have hp : Pauli.ofText name = .ok args.pauli :=
      (Pauli.ofText_word_eq_ok_iff hname.ne_nil hname.all_isWordChar).2 hname
    rw [ofText, parts?_eq_some_iff.2 hframed]
    simp only [(index?_eq_some_iff hindex.1).2 hindex, hp]

/-! ### The arguments that a pattern keeps -/

/-- The pattern of the arguments. -/
def pattern : List Pattern :=
  [literal '(', blanks, keep "index" (nonempty true isDecimalDigit), blanks, literal ',', blanks,
    keep "pauli" (nonempty true isWordChar), blanks, literal ')', finish]

/-- The arguments that stand in what was kept. -/
def ofKept (kept : Kept) : Except ArgumentFault CliffordArgs :=
  match kept.lookup "index", kept.lookup "pauli" with
  | some digits, some word =>
    match index? digits with
    | none => .error .indexOutOfRange
    | some index =>
      match Pauli.ofText word with
      | .error e => .error (.unknownPauli e)
      | .ok pauli => .ok ⟨index, pauli⟩
  | _, _ => .error .notClifford

theorem captures_pattern_eq_some {s : List Char} {y : Kept} :
    captures pattern s = some y ↔
      ∃ digits word, Framed s digits word ∧ y = [("index", digits), ("pauli", word)] := by
  have hdigits := fun s y => @captures_word _ s y "index" isDecimalDigit
    (anchored_comma [blanks, keep "pauli" (nonempty true isWordChar), blanks, literal ')', finish])
    isDecimalDigit_comma (fun _ => isBlank_of_isDecimalDigit)
  have hword := fun s y => @captures_word _ s y "pauli" isWordChar anchored_bracket
    isWordChar_comma (fun _ => isBlank_of_isWordChar)
  rw [pattern, captures_literal_eq_some]
  constructor
  · rintro ⟨t, rfl, ht⟩
    obtain ⟨d, u, digits, z, rfl, hin, hne, hall, hu, rfl⟩ := (hdigits t y).1 ht
    obtain ⟨v, rfl, hv⟩ := captures_literal_eq_some.1 hu
    obtain ⟨p, r, word, z, rfl, hin', hne', hall', hr, rfl⟩ := (hword v z).1 hv
    obtain ⟨rfl, rfl⟩ := captures_bracket_eq_some.1 hr
    exact ⟨digits, word, ⟨d, p, rfl, ⟨hin, hne, hall⟩, hin', hne', hall'⟩, rfl⟩
  · rintro ⟨digits, word, ⟨d, p, rfl, ⟨hin, hne, hall⟩, hin', hne', hall'⟩, rfl⟩
    have hbracket := captures_bracket_eq_some.2 ⟨rfl, rfl⟩
    have hp := (hword _ _).2 ⟨p, _, word, _, rfl, hin', hne', hall', hbracket, rfl⟩
    have hcomma := (captures_literal_eq_some (c := ',')).2 ⟨_, rfl, hp⟩
    exact ⟨_, rfl, (hdigits _ _).2 ⟨d, _, digits, _, rfl, hin, hne, hall, hcomma, rfl⟩⟩

/-- What the pattern keeps of the two words. -/
def keptOf (words : List Char × List Char) : Kept := [("index", words.1), ("pauli", words.2)]

theorem captures_pattern_eq (s : List Char) : captures pattern s = (parts? s).map keptOf := by
  refine Option.ext fun y => ?_
  rw [captures_pattern_eq_some, Option.map_eq_some_iff]
  simp [Prod.exists, parts?_eq_some_iff, keptOf, @eq_comm _ y]

theorem ofText_eq_captures (s : List Char) :
    ofText s = (captures pattern s).elim (.error .notClifford) ofKept := by
  rw [captures_pattern_eq, ofText]
  cases parts? s <;> rfl

/-! ### Digits that write no index -/

theorem ofText_eq_outOfRange_iff {s : List Char} :
    ofText s = .error .indexOutOfRange ↔
      ∃ digits word, parts? s = some (digits, word) ∧ index? digits = none := by
  unfold ofText
  split
  · next hparts => simp [hparts]
  · next digits word hparts =>
    split
    · next hindex => simp [hparts, hindex]
    · next n hindex =>
      -- the index is there, so the other word decides
      split <;> simp [hparts, hindex]

/-- The digits that the pattern keeps are those of the frame. -/
theorem exists_kept_iff {s : List Char} {P : List Char → Prop} :
    (∃ kept digits, captures pattern s = some kept ∧ kept.lookup "index" = some digits ∧
        P digits) ↔
      ∃ digits word, parts? s = some (digits, word) ∧ P digits := by
  rw [captures_pattern_eq]
  cases parts? s with
  | none => simp
  | some words => simp [keptOf, Prod.ext_iff]

/-- **The arguments of a Clifford element are parsed by their grammar.** A text is parsed as its
pattern reads it. The arguments are those that are written in the text: an index of ASCII digits, at
most 255, and the name of an operator. The index is out of range exactly if the pattern reads the
text and the digits that it keeps are not all ASCII digits or write a number above 255, whatever the
other word is. -/
theorem clifford_arguments_by_grammar (s : String) :
    parse (some s) = (captures pattern s.toList).elim (.error .notClifford) ofKept ∧
    (∀ args, parse (some s) = .ok args ↔ Written s.toList args) ∧
    ((∃ fault, parse (some s) = .error fault ∧ fault.reason = "Clifford index out of range") ↔
      ∃ kept digits, captures pattern s.toList = some kept ∧
        kept.lookup "index" = some digits ∧
        (digits.all Char.isDigit = false ∨ 255 < Nat.ofDigitChars 10 digits 0)) := by
  have hparse : parse (some s) = ofText s.toList := rfl
  simp only [hparse]
  refine ⟨ofText_eq_captures _, fun args => ofText_eq_ok_iff, ?_⟩
  simp only [ArgumentFault.reason_eq_outOfRange_iff, exists_eq_right, ofText_eq_outOfRange_iff,
    index?_eq_none_iff, exists_kept_iff]

/-- The digits are looked at before the name. -/
example : parse (some "( 256 , PauliQ )") = .error .indexOutOfRange := by decide +kernel

end CliffordArgs

end CircuitTrace
