import CircuitTrace.Gate.Arguments
import CircuitTrace.Proofs.Text.Pieces
import Mathlib.Data.List.Forall2

/-! # Names of Pauli operators

An operator is named by its letter in either case, alone or behind the word `Pauli`
(`Pauli.HasName`). A text names an operator if it is such a name with blanks around it
(`Pauli.ofText_eq_ok_iff`), and the operators of a list in square brackets are those that its
components name, blank ones left out (`ExponentialArgs.basisOf_eq_ok_iff`).

A list of operators is written with a comma and a blank between the names (`Pauli.listing`), and the
names are read back from it (`Pauli.forall₂_hasName_listing`). -/

namespace CircuitTrace

open Text

namespace Pauli

/-! ### One name -/

/-- The letters that stand for the operator. -/
def letters : Pauli → List Char
  | I => ['I', 'i']
  | X => ['X', 'x']
  | Z => ['Z', 'z']
  | Y => ['Y', 'y']

/-- **The text is a name of the operator**: one of its letters, alone or behind the word `Pauli`. -/
def HasName (p : Pauli) (name : List Char) : Prop :=
  ∃ c ∈ p.letters, name = [c] ∨ name = "Pauli".toList ++ [c]

theorem HasName.ne_nil {p : Pauli} {name : List Char} (h : p.HasName name) : name ≠ [] := by
  obtain ⟨c, -, rfl | rfl⟩ := h <;> simp

theorem isWordChar_of_mem_letters {p : Pauli} {c : Char} (h : c ∈ p.letters) : isWordChar c := by
  have hall : p.letters.all isWordChar := by cases p <;> decide
  exact List.all_eq_true.1 hall c h

/-- A name is a word. -/
theorem HasName.all_isWordChar {p : Pauli} {name : List Char} (h : p.HasName name) :
    name.all isWordChar := by
  obtain ⟨c, hc, hname⟩ := h
  have hpauli : "Pauli".toList.all isWordChar := by decide
  obtain rfl | rfl := hname
  · simp [isWordChar_of_mem_letters hc]
  · rw [List.all_append, hpauli, List.all_cons, isWordChar_of_mem_letters hc]
    rfl

theorem ofLetter_eq_ok_iff {c : Char} {p : Pauli} : ofLetter c = .ok p ↔ c ∈ p.letters := by
  have hI : c.toLower = 'i' ↔ c = 'I' ∨ c = 'i' := toLower_eq_toLower_iff (u := 'I') (by decide)
  have hX : c.toLower = 'x' ↔ c = 'X' ∨ c = 'x' := toLower_eq_toLower_iff (u := 'X') (by decide)
  have hZ : c.toLower = 'z' ↔ c = 'Z' ∨ c = 'z' := toLower_eq_toLower_iff (u := 'Z') (by decide)
  have hY : c.toLower = 'y' ↔ c = 'Y' ∨ c = 'y' := toLower_eq_toLower_iff (u := 'Y') (by decide)
  have hletters : c ∈ p.letters ↔ match p with
      | I => c.toLower = 'i' | X => c.toLower = 'x' | Z => c.toLower = 'z' | Y => c.toLower = 'y' := by
    cases p <;> simp [letters, hI, hX, hZ, hY]
  rw [hletters]
  unfold ofLetter
  split <;> cases p <;> simp_all

theorem withoutWord_eq_singleton_iff {s : List Char} {c : Char} :
    withoutWord s = [c] ↔ s = [c] ∨ s = "Pauli".toList ++ [c] := by
  unfold withoutWord
  split
  · next s => simp
  · next hno => exact (or_iff_left fun h => hno [c] h).symm

/-- **The texts that name an operator.** -/
theorem ofText_eq_ok_iff {s : List Char} {p : Pauli} : ofText s = .ok p ↔ p.HasName (trim s) := by
  have hword : ofText s = .ok p ↔ ∃ c, withoutWord (trim s) = [c] ∧ ofLetter c = .ok p := by
    unfold ofText
    split
    · next c hc => simp [hc]
    · next hno =>
      refine iff_of_false (by simp) ?_
      rintro ⟨c, hc, -⟩
      exact hno c hc
  rw [hword]
  simp only [withoutWord_eq_singleton_iff, ofLetter_eq_ok_iff, HasName, and_comm]

/-- A word has no blanks around it. -/
theorem ofText_word_eq_ok_iff {s : List Char} {p : Pauli} (hne : s ≠ []) (hs : s.all isWordChar) :
    ofText s = .ok p ↔ p.HasName s := by
  rw [ofText_eq_ok_iff, (trimmed_of_isWordChar hne hs).trim_eq]

end Pauli

namespace ExponentialArgs

/-! ### Lists of names -/

/-- The components of a list that count: those that are not blank. -/
def components (s : List Char) : List (List Char) :=
  (s.splitOn ',').filter fun p => !p.all isBlank

theorem paulis_cons (s : List Char) (ss : List (List Char)) :
    paulis (s :: ss) = match Pauli.ofText s with
      | .error e => .error e
      | .ok p => (paulis ss).map (p :: ·) := rfl

theorem paulis_eq_ok_iff {ss : List (List Char)} {ps : List Pauli} :
    paulis ss = .ok ps ↔ List.Forall₂ (fun s p => Pauli.HasName p (trim s)) ss ps := by
  induction ss generalizing ps with
  | nil => simp [paulis, eq_comm]
  | cons s ss ih =>
    simp only [List.forall₂_cons_left_iff, ← ih]
    simp only [← Pauli.ofText_eq_ok_iff]
    rw [paulis_cons]
    cases hs : Pauli.ofText s with
    | error e => simp
    | ok p => cases hss : paulis ss <;> simp [Except.map, eq_comm]

/-- **The operators that a list names.** -/
theorem basisOf_eq_ok_iff {s : List Char} {ps : List Pauli} :
    basisOf s = .ok ps ↔ List.Forall₂ (fun s p => Pauli.HasName p (trim s)) (components s) ps := by
  have hcomponents : (pieces ',' s).filter (fun p => !(trim p).isEmpty) = components s := by
    rw [components, pieces_eq_splitOn]
    refine List.filter_congr fun p _ => ?_
    rw [Bool.eq_iff_iff]
    simp [trim_eq_nil_iff]
  rw [basisOf, hcomponents, paulis_eq_ok_iff]

/-- A list names operators if each of its components does. -/
theorem exists_basisOf_iff {s : List Char} :
    (∃ ps, basisOf s = .ok ps) ↔
      ∀ p ∈ s.splitOn ',', p.all isBlank = false → ∃ q : Pauli, q.HasName (trim p) := by
  have hmem : ∀ p, p ∈ components s ↔ p ∈ s.splitOn ',' ∧ p.all isBlank = false := by
    simp [components, List.mem_filter]
  simp only [basisOf_eq_ok_iff, ← and_imp, ← hmem]
  generalize components s = ss
  induction ss with
  | nil => simp
  | cons s ss ih =>
    refine Iff.trans ?_ (List.forall_mem_cons.trans (and_congr_right' ih.symm)).symm
    simp only [List.forall₂_cons_left_iff]
    constructor
    · rintro ⟨_, p, ps, hp, hps, rfl⟩
      exact ⟨⟨p, hp⟩, ps, hps⟩
    · rintro ⟨⟨p, hp⟩, ps, hps⟩
      exact ⟨p :: ps, p, ps, hp, hps, rfl⟩

end ExponentialArgs

namespace Pauli

/-! ### Writing names -/

/-- The name of the operator, with the word. -/
def fullName (p : Pauli) : String := "Pauli" ++ p.letter

/-- The names of operators, with a comma and a blank between them. -/
def listing (ps : List Pauli) : String := String.intercalate ", " (ps.map fullName)

theorem toList_fullName (p : Pauli) : ∃ c ∈ p.letters, p.fullName.toList = "Pauli".toList ++ [c] := by
  cases p <;> exact ⟨_, List.mem_cons_self, rfl⟩

theorem hasName_fullName (p : Pauli) : p.HasName p.fullName.toList := by
  obtain ⟨c, hc, hname⟩ := p.toList_fullName
  exact ⟨c, hc, .inr hname⟩

theorem trimmed_fullName (p : Pauli) : Trimmed p.fullName.toList := by
  cases p <;> exact .of_ends rfl rfl (by decide) (by decide)

theorem toList_listing_cons_cons (p q : Pauli) (ps : List Pauli) :
    (listing (p :: q :: ps)).toList =
      p.fullName.toList ++ ',' :: ([' '] ++ (listing (q :: ps)).toList) := by
  unfold listing
  simp only [String.toList_intercalate, List.map_cons, List.intercalate_cons_cons]
  simp

/-- A name stands in a component if it has only blanks around it. -/
theorem trim_append_fullName {w : List Char} (hw : w.all isBlank) (p : Pauli) :
    trim (w ++ p.fullName.toList) = p.fullName.toList :=
  InBlanks.trim_eq ⟨w, [], by simp, hw, rfl⟩ p.trimmed_fullName

theorem listing_singleton (p : Pauli) : listing [p] = p.fullName := by
  simp [listing]

/-- A name holds no comma and is no blank, whatever blanks stand before it. -/
theorem blank_append_fullName {w : List Char} (hw : w.all isBlank) (p : Pauli) :
    ',' ∉ w ++ p.fullName.toList ∧ (w ++ p.fullName.toList).all isBlank = false := by
  have hcomma : ',' ∉ w := fun h => absurd (List.all_eq_true.1 hw _ h) (by decide)
  have hname : ',' ∉ p.fullName.toList ∧ p.fullName.toList.all isBlank = false := by
    cases p <;> decide
  simp [hcomma, hname]

/-- **The names are read back from a listing**, with blanks in front of it. -/
theorem forall₂_hasName_listing : ∀ {w : List Char} (_ : w.all isBlank) (ps : List Pauli),
    List.Forall₂ (fun s p => Pauli.HasName p (trim s))
      (ExponentialArgs.components (w ++ (listing ps).toList)) ps
  | w, hw, [] => by
    have hcomma : ',' ∉ w := fun h => absurd (List.all_eq_true.1 hw _ h) (by decide)
    have hnone : ExponentialArgs.components (w ++ (listing []).toList) = [] := by
      simp [ExponentialArgs.components, listing, List.splitOn_eq_singleton hcomma, hw]
    rw [hnone]
    exact .nil
  | w, hw, [p] => by
    obtain ⟨hcomma, hblank⟩ := blank_append_fullName hw p
    rw [listing_singleton, ExponentialArgs.components, List.splitOn_eq_singleton hcomma,
      List.filter_singleton, hblank]
    exact .cons ((trim_append_fullName hw p).symm ▸ p.hasName_fullName) .nil
  | w, hw, p :: q :: ps => by
    obtain ⟨hcomma, hblank⟩ := blank_append_fullName hw p
    rw [toList_listing_cons_cons, ← List.append_assoc, ExponentialArgs.components,
      List.splitOn_append_cons_self_of_not_mem hcomma, List.filter_cons_of_pos (by simp [hblank])]
    exact .cons ((trim_append_fullName hw p).symm ▸ p.hasName_fullName)
      (forall₂_hasName_listing (by decide) (q :: ps))

theorem bracket_notMem_listing : ∀ ps : List Pauli, ']' ∉ (listing ps).toList
  | [] => by simp [listing]
  | [p] => by
    rw [listing_singleton]
    cases p <;> decide
  | p :: q :: ps => by
    have hname : ']' ∉ p.fullName.toList := by cases p <;> decide
    rw [toList_listing_cons_cons]
    simp [hname, bracket_notMem_listing (q :: ps)]

end Pauli

end CircuitTrace
