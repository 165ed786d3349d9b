import CircuitTrace.Proofs.Gate.Component

/-! # Which texts are the arguments of a rotation

The arguments of a rotation have a grammar (`RotationArgs.Written`): in round brackets, a word for
the axis, a comma, and one or two components without commas, which are not empty. The grammar is the
one that a pattern reads (`RotationArgs.pattern`), and the arguments that are taken from a text are
those that the preferred reading keeps. -/

namespace CircuitTrace.RotationArgs

open Text Text.Pattern

/-! ### The grammar -/

/-- The text names an axis: it is a word between blanks, and the axis is its last letter. -/
def WrittenAxis (s : List Char) (axis : Char) : Prop :=
  ∃ word last, InBlanks word s ∧ word.all isWordChar ∧ word.getLast? = some last ∧
    axis = last.toLower

/-- The text gives an angle, by one component or by two. -/
inductive WrittenAngle : List Char → Angle → Prop where
  | literal {p e : List Char} (hp : ',' ∉ p) (he : Component p e) :
      WrittenAngle p (.literal (String.ofList e))
  | dyadic {p q e e' : List Char} (hp : ',' ∉ p) (hq : ',' ∉ q) (he : Component p e)
      (he' : Component q e') :
      WrittenAngle (p ++ ',' :: q) (.dyadic (String.ofList e) (String.ofList e'))

/-- The text is the arguments of a rotation. -/
def Written (s : List Char) (args : RotationArgs) : Prop :=
  ∃ a t, s = '(' :: (a ++ ',' :: (t ++ [')'])) ∧ WrittenAxis a args.axis ∧ WrittenAngle t args.angle

/-! ### The arguments that are parsed -/

theorem axis?_eq_some_iff {s : List Char} {axis : Char} :
    axis? s = some axis ↔ WrittenAxis s axis := by
  have hword := @wordOf?_eq_some_iff isWordChar (fun _ => isBlank_of_isWordChar) s
  constructor
  · intro h
    unfold axis? at h
    split at h
    · cases h
    · next word hw =>
      obtain ⟨hin, -, hall⟩ := hword.1 hw
      obtain ⟨last, hlast, rfl⟩ := Option.map_eq_some_iff.1 h
      exact ⟨word, last, hin, hall, hlast, rfl⟩
  · rintro ⟨word, last, hin, hall, hlast, rfl⟩
    have hne : word ≠ [] := by rintro rfl; cases hlast
    simp [axis?, hword.2 ⟨hin, hne, hall⟩, hlast]

theorem WrittenAxis.comma_notMem {s : List Char} {axis : Char} (h : WrittenAxis s axis) :
    ',' ∉ s := by
  obtain ⟨word, last, hin, hall, -, -⟩ := h
  exact comma_notMem_of_inBlanks isWordChar_comma hin hall

theorem angle?_pieces_eq_some_iff {s : List Char} {angle : Angle} :
    angle? (pieces ',' s) = some angle ↔ WrittenAngle s angle := by
  constructor
  · intro h
    unfold angle? at h
    split at h
    · next p hp =>
      obtain ⟨hcomma, rfl⟩ := pieces_eq_singleton_iff.1 hp
      obtain ⟨x, hx, rfl⟩ := Option.map_eq_some_iff.1 h
      obtain ⟨e, he, rfl⟩ := expression?_eq_some_iff.1 hx
      exact .literal hcomma he
    · next p q hpq =>
      obtain ⟨hp, hq, rfl⟩ := pieces_eq_pair_iff.1 hpq
      split at h
      · next x x' hx hx' =>
        obtain ⟨e, he, rfl⟩ := expression?_eq_some_iff.1 hx
        obtain ⟨e', he', rfl⟩ := expression?_eq_some_iff.1 hx'
        obtain rfl := Option.some.inj h
        exact .dyadic hp hq he he'
      · cases h
    · cases h
  · rintro (⟨hp, he⟩ | ⟨hp, hq, he, he'⟩)
    · rw [pieces_of_notMem hp, angle?, expression?_eq_some_iff.2 ⟨_, he, rfl⟩]
      rfl
    · rw [pieces_append_cons hp, pieces_of_notMem hq, angle?,
        expression?_eq_some_iff.2 ⟨_, he, rfl⟩, expression?_eq_some_iff.2 ⟨_, he', rfl⟩]

theorem ofText_eq_ok_iff {s : List Char} {args : RotationArgs} :
    ofText s = .ok args ↔ Written s args := by
  constructor
  · intro h
    unfold ofText at h
    split at h
    · next a rest hs =>
      obtain ⟨u, hu, hpieces⟩ := Option.map_eq_some_iff.1 hs
      split at h
      · next axis angle haxis hangle =>
        obtain rfl := Except.ok.inj h
        obtain ⟨ha, ⟨rfl, rfl⟩ | ⟨t, rfl, rfl⟩⟩ := pieces_eq_cons_iff.1 hpieces
        · cases hangle
        · exact ⟨a, t, by simpa using unbracket_eq_some_iff.1 hu, axis?_eq_some_iff.1 haxis,
            angle?_pieces_eq_some_iff.1 hangle⟩
      · cases h
    · cases h
  · rintro ⟨a, t, rfl, haxis, hangle⟩
    have hu : unbracket ('(' :: (a ++ ',' :: (t ++ [')']))) = some (a ++ ',' :: t) :=
      unbracket_eq_some_iff.2 (by simp)
    rw [ofText, hu, Option.map_some, pieces_append_cons haxis.comma_notMem]
    simp only [axis?_eq_some_iff.2 haxis, angle?_pieces_eq_some_iff.2 hangle]

/-! ### The arguments that a pattern keeps -/

/-- The pattern behind the first component. -/
def close : List Pattern :=
  [maybe (row [literal ',', blanks, keep "second" expression, blanks]), literal ')', finish]

/-- The pattern of the arguments. -/
def pattern : List Pattern :=
  [literal '(', blanks, keep "axis" (nonempty true isWordChar), blanks, literal ',', blanks,
    keep "first" expression, blanks] ++ close

/-- The arguments that stand in what was kept. -/
def ofKept (kept : Kept) : Option RotationArgs := do
  let axis ← kept.lookup "axis"
  let last ← axis.getLast?
  let first ← kept.lookup "first"
  return ⟨last.toLower, match kept.lookup "second" with
    | none => .literal (String.ofList first)
    | some second => .dyadic (String.ofList first) (String.ofList second)⟩

/-- What is kept of an angle. -/
def keptOf : Angle → Kept
  | .literal e => [("first", e.toList)]
  | .dyadic e e' => [("first", e.toList), ("second", e'.toList)]

theorem ofKept_cons {word : List Char} {last : Char} (h : word.getLast? = some last)
    (angle : Angle) : ofKept (("axis", word) :: keptOf angle) = some ⟨last.toLower, angle⟩ := by
  cases angle <;> simp [ofKept, keptOf, List.lookup_cons, h]

section Kept
variable {s : List Char} {y : Kept}

theorem captures_close_eq_some :
    captures close s = some y ↔ s = [')'] ∧ y = [] ∨
      ∃ q e, s = ',' :: (q ++ [')']) ∧ ',' ∉ q ∧ Component q e ∧ y = [("second", e)] := by
  rw [close, captures_maybe_row, Option.or_eq_some_iff]
  simp only [List.cons_append, List.nil_append, captures_literal_eq_some (c := ','),
    captures_last_component_eq_some, captures_bracket_eq_some]
  constructor
  · rintro (⟨_, rfl, q, e, rfl, h⟩ | ⟨-, h⟩)
    · exact .inr ⟨q, e, rfl, h⟩
    · exact .inl h
  · rintro (⟨rfl, rfl⟩ | ⟨q, e, rfl, h⟩)
    · -- the bracket is not read as a comma
      exact .inr ⟨rfl, rfl, rfl⟩
    · exact .inl ⟨_, rfl, q, e, rfl, h⟩

theorem anchored_close : Anchored close := by
  refine anchored_of_first fun u y hy => ?_
  obtain ⟨rfl, -⟩ | ⟨q, e, rfl, -⟩ := captures_close_eq_some.1 hy
  · exact .inl rfl
  · exact .inr ⟨_, rfl⟩

theorem captures_angle_eq_some :
    captures (blanks :: keep "first" expression :: blanks :: close) s = some y ↔
      ∃ t angle, s = t ++ [')'] ∧ WrittenAngle t angle ∧ y = keptOf angle := by
  rw [captures_expression anchored_close]
  constructor
  · rintro ⟨p, u, e, z, rfl, hp, he, hu, rfl⟩
    obtain ⟨rfl, rfl⟩ | ⟨q, e', rfl, hq, he', rfl⟩ := captures_close_eq_some.1 hu
    · exact ⟨p, _, rfl, .literal hp he, by simp [keptOf]⟩
    · exact ⟨_, _, by simp, .dyadic hp hq he he', by simp [keptOf]⟩
  · rintro ⟨_, _, rfl, ⟨hp, he⟩ | ⟨hp, hq, he, he'⟩, rfl⟩
    · exact ⟨_, _, _, _, rfl, hp, he, captures_close_eq_some.2 (.inl ⟨rfl, rfl⟩), by simp [keptOf]⟩
    · exact ⟨_, _, _, _, by simp, hp, he,
        captures_close_eq_some.2 (.inr ⟨_, _, rfl, hq, he', rfl⟩), by simp [keptOf]⟩

theorem captures_pattern_eq_some :
    captures pattern s = some y ↔
      ∃ a t word angle, s = '(' :: (a ++ ',' :: (t ++ [')'])) ∧ InBlanks word a ∧ word ≠ [] ∧
        word.all isWordChar ∧ WrittenAngle t angle ∧ y = ("axis", word) :: keptOf angle := by
  have hword := fun s y => @captures_word _ s y "axis" isWordChar
    (anchored_comma (blanks :: keep "first" expression :: blanks :: close)) isWordChar_comma
    (fun _ => isBlank_of_isWordChar)
  simp only [pattern, List.cons_append, List.nil_append]
  rw [captures_literal_eq_some]
  constructor
  · rintro ⟨u, rfl, hu⟩
    obtain ⟨a, v, word, z, rfl, hin, hne, hall, hv, rfl⟩ := (hword u y).1 hu
    obtain ⟨r, rfl, hr⟩ := captures_literal_eq_some.1 hv
    obtain ⟨t, angle, rfl, hangle, rfl⟩ := captures_angle_eq_some.1 hr
    exact ⟨a, t, word, angle, rfl, hin, hne, hall, hangle, rfl⟩
  · rintro ⟨a, t, word, angle, rfl, hin, hne, hall, hangle, rfl⟩
    have hz := captures_angle_eq_some.2 ⟨t, angle, rfl, hangle, rfl⟩
    have hcomma := (captures_literal_eq_some (c := ',')).2 ⟨_, rfl, hz⟩
    exact ⟨_, rfl, (hword _ _).2 ⟨a, _, word, _, rfl, hin, hne, hall, hcomma, rfl⟩⟩

/-- What the pattern keeps has the arguments in it that are written. -/
theorem ofKept_of_captures (h : captures pattern s = some y) :
    ∃ args, ofKept y = some args ∧ Written s args := by
  obtain ⟨a, t, word, angle, rfl, hin, hne, hall, hangle, rfl⟩ := captures_pattern_eq_some.1 h
  have hlast := List.getLast?_eq_some_getLast hne
  exact ⟨_, ofKept_cons hlast angle, a, t, rfl, ⟨word, _, hin, hall, hlast, rfl⟩, hangle⟩

theorem captures_of_written {args : RotationArgs} (h : Written s args) :
    ∃ kept, captures pattern s = some kept ∧ ofKept kept = some args := by
  obtain ⟨axis, angle⟩ := args
  obtain ⟨a, t, rfl, ⟨word, last, hin, hall, hlast, rfl⟩, hangle⟩ := h
  have hne : word ≠ [] := by rintro rfl; cases hlast
  exact ⟨_, captures_pattern_eq_some.2 ⟨a, t, word, angle, rfl, hin, hne, hall, hangle, rfl⟩,
    ofKept_cons hlast angle⟩

theorem captures_pattern_iff_written {args : RotationArgs} :
    (∃ kept, captures pattern s = some kept ∧ ofKept kept = some args) ↔ Written s args := by
  refine ⟨fun ⟨kept, hkept, hargs⟩ => ?_, captures_of_written⟩
  obtain ⟨args', hargs', hw⟩ := ofKept_of_captures hkept
  obtain rfl := Option.some.inj (hargs'.symm.trans hargs)
  exact hw

theorem captures_pattern_eq_none : captures pattern s = none ↔ ¬ ∃ args, Written s args := by
  constructor
  · rintro hnone ⟨args, hw⟩
    obtain ⟨kept, hkept, -⟩ := captures_of_written hw
    rw [hnone] at hkept
    cases hkept
  · intro hno
    cases h : captures pattern s with
    | none => rfl
    | some kept =>
      obtain ⟨args, -, hw⟩ := ofKept_of_captures h
      exact absurd ⟨args, hw⟩ hno

end Kept

/-! ### Acceptance -/

/-- A text gives an angle if it has at most one comma and its components are not empty. -/
theorem exists_writtenAngle_iff {t : List Char} :
    (∃ angle, WrittenAngle t angle) ↔ t.count ',' ≤ 1 ∧ ∀ p ∈ t.splitOn ',', p ≠ [] := by
  constructor
  · rintro ⟨_, ⟨hp, he⟩ | ⟨hp, hq, he, he'⟩⟩
    · rw [List.splitOn_eq_singleton hp, List.count_eq_zero.2 hp]
      simpa using he.ne_nil
    · rw [List.splitOn_append_cons_self_of_not_mem hp, List.splitOn_eq_singleton hq,
        List.count_append, List.count_cons_self, List.count_eq_zero.2 hp, List.count_eq_zero.2 hq]
      simpa using ⟨he.ne_nil, he'.ne_nil⟩
  · rintro ⟨hcount, hne⟩
    by_cases ht : ',' ∈ t
    · obtain ⟨p, q, rfl, hp⟩ := List.eq_append_cons_of_mem ht
      have hq : ',' ∉ q := by
        rw [List.count_append, List.count_cons_self] at hcount
        exact List.count_eq_zero.1 (by omega)
      rw [List.splitOn_append_cons_self_of_not_mem hp, List.splitOn_eq_singleton hq] at hne
      obtain ⟨e, he⟩ := exists_component (hne p (by simp))
      obtain ⟨e', he'⟩ := exists_component (hne q (by simp))
      exact ⟨_, .dyadic hp hq he he'⟩
    · rw [List.splitOn_eq_singleton ht] at hne
      obtain ⟨e, he⟩ := exists_component (hne t (by simp))
      exact ⟨_, .literal ht he⟩

theorem ofText_eq_error_iff {s : List Char} :
    ofText s = .error .notRotation ↔ ¬ ∃ args, Written s args := by
  simp only [← ofText_eq_ok_iff]
  have hcases : (∃ args, ofText s = .ok args) ∨ ofText s = .error .notRotation := by
    unfold ofText
    split
    · split
      · exact .inl ⟨_, rfl⟩
      · exact .inr rfl
    · exact .inr rfl
  obtain ⟨args, h⟩ | h := hcases <;> simp [h]

/-- **The arguments of a rotation are parsed by their grammar.** A text is parsed as its pattern
reads it: the arguments are those that the preferred reading keeps, and the fault stands for a text
that has no reading. They are the arguments that are written in the text, and some are written in it
if it is a bracketed text of a word between blanks, a comma, and a text with at most one comma and
without empty components. -/
theorem parse_by_grammar (s : String) :
    (∀ args, parse (some s) = .ok args ↔
      ∃ kept, captures pattern s.toList = some kept ∧ ofKept kept = some args) ∧
    (parse (some s) = .error .notRotation ↔ captures pattern s.toList = none) ∧
    (∀ args, parse (some s) = .ok args ↔ Written s.toList args) ∧
    ((∃ args, parse (some s) = .ok args) ↔
      ∃ a t word, s.toList = '(' :: (a ++ ',' :: (t ++ [')'])) ∧
        InBlanks word a ∧ word ≠ [] ∧ word.all isWordChar ∧
        t.count ',' ≤ 1 ∧ ∀ p ∈ t.splitOn ',', p ≠ []) := by
  have hparse : parse (some s) = ofText s.toList := rfl
  simp only [hparse]
  refine ⟨fun args => ofText_eq_ok_iff.trans captures_pattern_iff_written.symm,
    ofText_eq_error_iff.trans captures_pattern_eq_none.symm, fun args => ofText_eq_ok_iff, ?_⟩
  constructor
  · rintro ⟨args, h⟩
    obtain ⟨a, t, hs, ⟨word, last, hin, hall, hlast, -⟩, hangle⟩ := ofText_eq_ok_iff.1 h
    obtain ⟨hcount, hne⟩ := exists_writtenAngle_iff.1 ⟨_, hangle⟩
    have hword : word ≠ [] := by rintro rfl; cases hlast
    exact ⟨a, t, word, hs, hin, hword, hall, hcount, hne⟩
  · rintro ⟨a, t, word, hs, hin, hword, hall, hcount, hne⟩
    obtain ⟨angle, hangle⟩ := exists_writtenAngle_iff.2 ⟨hcount, hne⟩
    have haxis := List.getLast?_eq_some_getLast hword
    exact ⟨⟨_, angle⟩, ofText_eq_ok_iff.2 ⟨a, t, hs, ⟨word, _, hin, hall, haxis, rfl⟩, hangle⟩⟩

end CircuitTrace.RotationArgs
