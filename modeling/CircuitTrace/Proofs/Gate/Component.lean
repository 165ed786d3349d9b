import CircuitTrace.Gate.Arguments
import CircuitTrace.Proofs.Text.Pattern

/-! # Components of a tuple

The components of a tuple stand between commas and have blanks around them. What a component says
(`Component`) is what `expression?` takes from it, and a component of word characters is what
`wordOf?` takes.

A pattern reads a component as blanks, a text that is kept, and blanks again, and then it goes on
with the comma or the bracket that closes the component. Where it goes on is determined
(`Anchored`); which of the blanks are kept depends on the order of the readings. A word keeps none
(`captures_word`). An expression is any text without a comma: the greedy blanks in front of it leave
it a blank only if it has nothing else, and then the last one; the lazy run keeps no blank at its
end (`captures_expression`). -/

namespace CircuitTrace

open Text Text.Pattern

/-- What a component without commas says: its text without the blanks around it or, if it is made of
blanks, the last of them. -/
inductive Component (p : List Char) : List Char → Prop where
  | word {w : List Char} (hw : InBlanks w p) (ht : Trimmed w) : Component p w
  | blank {c : Char} (hp : p.all isBlank) (hc : p.getLast? = some c) : Component p [c]

theorem exists_component {p : List Char} (h : p ≠ []) : ∃ e, Component p e := by
  by_cases ht : trim p = []
  · exact ⟨_, .blank (trim_eq_nil_iff.1 ht) (List.getLast?_eq_some_getLast h)⟩
  · exact ⟨_, .word (inBlanks_trim p) (trimmed_trim ht)⟩

theorem Component.ne_nil {p e : List Char} (h : Component p e) : p ≠ [] := by
  rintro rfl
  obtain ⟨⟨front, back, hin, -, -⟩, ht⟩ | ⟨-, hc⟩ := h
  · exact ht.ne_nil (by simp_all)
  · cases hc

theorem component_iff {p e : List Char} :
    Component p e ↔
      trim p ≠ [] ∧ e = trim p ∨ trim p = [] ∧ ∃ c, p.getLast? = some c ∧ e = [c] := by
  constructor
  · rintro (⟨hw, ht⟩ | ⟨hp, hc⟩)
    · exact .inl ⟨hw.trim_eq ht ▸ ht.ne_nil, (hw.trim_eq ht).symm⟩
    · exact .inr ⟨trim_eq_nil_iff.2 hp, _, hc, rfl⟩
  · rintro (⟨ht, rfl⟩ | ⟨hp, c, hc, rfl⟩)
    · exact .word (inBlanks_trim p) (trimmed_trim ht)
    · exact .blank (trim_eq_nil_iff.1 hp) hc

/-- **The expression that a component is.** -/
theorem expression?_eq_some_iff {p : List Char} {x : String} :
    expression? p = some x ↔ ∃ e, Component p e ∧ x = String.ofList e := by
  simp only [component_iff]
  cases hlast : p.getLast? with
  | none =>
    obtain rfl := List.getLast?_eq_none_iff.1 hlast
    have ht : trim [] = [] := rfl
    simp [expression?, ht]
  | some last =>
    by_cases ht : trim p = []
    · simp [expression?, hlast, ht, @eq_comm _ x]
    · simp [expression?, hlast, ht, @eq_comm _ x]

/-- **The word that a component is.** -/
theorem wordOf?_eq_some_iff {member : Char → Bool} (hblank : ∀ c, member c → isBlank c = false)
    {s w : List Char} :
    wordOf? member s = some w ↔ InBlanks w s ∧ w ≠ [] ∧ w.all member := by
  have htrim : wordOf? member s = some w ↔ trim s = w ∧ w ≠ [] ∧ w.all member := by
    have hif : wordOf? member s =
        if trim s ≠ [] ∧ (trim s).all member then some (trim s) else none := by
      simp [wordOf?]
    rw [hif, Option.ite_none_right_eq_some]
    constructor
    · rintro ⟨⟨hne, hall⟩, h⟩
      obtain rfl := Option.some.inj h
      exact ⟨rfl, hne, hall⟩
    · rintro ⟨rfl, h⟩
      exact ⟨h, rfl⟩
  rw [htrim]
  constructor
  · rintro ⟨rfl, hw⟩
    exact ⟨inBlanks_trim s, hw⟩
  · rintro ⟨hin, hne, hall⟩
    have hmem : ∀ c ∈ w, isBlank c = false := fun c hc => hblank c (List.all_eq_true.1 hall c hc)
    exact ⟨hin.trim_eq (.of_forall hne hmem), hne, hall⟩

/-! ### Components that a pattern reads -/

/-- The pattern of an expression. -/
def Text.Pattern.expression : Pattern := nonempty false (· ≠ ',')

/-- Behind a text without commas the patterns can go on at one place at most. -/
def Anchored (ps : List Pattern) : Prop :=
  ∀ ⦃p u p' u' : List Char⦄, p ++ u = p' ++ u' → ',' ∉ p → ',' ∉ p' →
    (captures ps u).isSome → (captures ps u').isSome → p = p'

theorem comma_notMem_of_isBlank {s : List Char} (h : s.all isBlank) : ',' ∉ s := fun hmem =>
  absurd (List.all_eq_true.1 h _ hmem) (by decide)

theorem comma_notMem_of_inBlanks {member : Char → Bool} (hcomma : member ',' = false)
    {w s : List Char} (hin : InBlanks w s) (hall : w.all member) : ',' ∉ s := by
  obtain ⟨front, back, rfl, hfront, hback⟩ := hin
  have hw : ',' ∉ w := fun hmem => by simp [List.all_eq_true.1 hall _ hmem] at hcomma
  simp [comma_notMem_of_isBlank hfront, hw, comma_notMem_of_isBlank hback]

/-- Patterns that go on with a comma, or with the bracket at the end of the text, do so at the first
comma, or at the end of a text without commas. -/
theorem anchored_of_first {ps : List Pattern}
    (h : ∀ u y, captures ps u = some y → u = [')'] ∨ ∃ t, u = ',' :: t) : Anchored ps := by
  intro p u p' u' heq hp hp' hu hu'
  obtain ⟨y, hy⟩ := Option.isSome_iff_exists.1 hu
  obtain ⟨y', hy'⟩ := Option.isSome_iff_exists.1 hu'
  obtain rfl | ⟨t, rfl⟩ := h u y hy <;> obtain rfl | ⟨t', rfl⟩ := h u' y' hy'
  · exact List.append_cancel_right heq
  · have : ',' ∈ p ++ [')'] := by rw [heq]; simp
    simp [hp] at this
  · have : ',' ∈ p' ++ [')'] := by rw [← heq]; simp
    simp [hp'] at this
  · exact eq_of_append_cons hp hp' heq

theorem anchored_comma (ps : List Pattern) : Anchored (literal ',' :: ps) := by
  refine anchored_of_first fun u y hy => ?_
  obtain ⟨t, rfl, -⟩ := captures_literal_eq_some.1 hy
  exact .inr ⟨t, rfl⟩

theorem captures_bracket_eq_some {s : List Char} {y : Kept} :
    captures [literal ')', finish] s = some y ↔ s = [')'] ∧ y = [] := by
  rw [captures_literal_eq_some]
  constructor
  · rintro ⟨t, rfl, ht⟩
    obtain ⟨rfl, rfl⟩ := captures_finish_eq_some.1 ht
    exact ⟨rfl, rfl⟩
  · rintro ⟨rfl, rfl⟩
    exact ⟨[], rfl, captures_finish_eq_some.2 ⟨rfl, rfl⟩⟩

theorem anchored_bracket : Anchored [literal ')', finish] :=
  anchored_of_first fun _ _ hy => .inl (captures_bracket_eq_some.1 hy).1

section Parts
variable {ps : List Pattern} {s b u e : List Char} {y z : Kept} {name : String} {greedy : Bool}
  {member : Char → Bool}

theorem exists_of_captures_blanks (h : captures (blanks :: ps) s = some z) :
    ∃ b u, s = b ++ u ∧ b.all isBlank ∧ captures ps u = some z := by
  rw [blanks, captures_many] at h
  exact exists_of_findSome?_runs h

theorem exists_of_captures_keep
    (h : captures (keep name (nonempty greedy member) :: ps) s = some y) :
    ∃ e u z, s = e ++ u ∧ e ≠ [] ∧ e.all member ∧ captures ps u = some z ∧
      y = (name, e) :: z := by
  cases s with
  | nil =>
    rw [captures_keep_nonempty_nil] at h
    cases h
  | cons c s =>
    rw [captures_keep_nonempty_cons] at h
    split at h
    · next hc =>
      obtain ⟨a, u, rfl, ha, hu⟩ := exists_of_findSome?_runs h
      obtain ⟨z, hz, rfl⟩ := Option.map_eq_some_iff.1 hu
      exact ⟨c :: a, u, z, rfl, List.cons_ne_nil _ _, by simp [hc, ha], hz, rfl⟩
    · cases h

theorem captures_blanks (hps : Anchored ps) (hb : b.all isBlank) (hu : captures ps u = some z) :
    captures (blanks :: ps) (b ++ u) = some z := by
  rw [blanks, captures_many]
  refine findSome?_greedy hb hu fun x u' hux hx hblank => ?_
  by_contra hu'
  have hsplit : b ++ x ++ u' = b ++ u := by simp [hux]
  have hcut : b ++ x = b :=
    hps hsplit (comma_notMem_of_isBlank (by simp [hb, hblank])) (comma_notMem_of_isBlank hb)
      (Option.isSome_iff_ne_none.2 hu') (by simp [hu])
  exact hx (by simpa using hcut)

/-- A text is kept, and the blanks behind it are not, if no shorter text has only blanks between
itself and the place where the patterns go on. -/
theorem captures_lazy (hps : Anchored ps) (he : e ≠ []) (hcomma : ',' ∉ e) (hb : b.all isBlank)
    (hu : captures ps u = some z)
    (hend : ∀ a x, e = a ++ x → a ≠ [] → x ≠ [] → ¬ x.all isBlank) :
    captures (keep name expression :: blanks :: ps) (e ++ (b ++ u)) = some ((name, e) :: z) := by
  obtain ⟨c, e, rfl⟩ := List.exists_cons_of_ne_nil he
  obtain ⟨hc, he⟩ : ',' ≠ c ∧ ',' ∉ e := by simpa using hcomma
  rw [expression, List.cons_append, captures_keep_nonempty_cons, if_pos (by simpa using hc.symm)]
  refine findSome?_lazy ?_ (by simp [captures_blanks hps hb hu]) fun a x hax hx => ?_
  · exact List.all_eq_true.2 fun d hd => decide_eq_true fun h : d = ',' => he (h ▸ hd)
  · by_contra hy
    obtain ⟨y, hy⟩ := Option.ne_none_iff_exists'.1 hy
    obtain ⟨z', hz', -⟩ := Option.map_eq_some_iff.1 hy
    obtain ⟨b', u', hxu, hb', hu'⟩ := exists_of_captures_blanks hz'
    have hxb : ',' ∉ x ++ b := by
      rw [hax, List.mem_append, not_or] at he
      simp [he.2, comma_notMem_of_isBlank hb]
    have hsplit : x ++ b ++ u = b' ++ u' := by simpa using hxu
    have hcut : x ++ b = b' :=
      hps hsplit hxb (comma_notMem_of_isBlank hb') (by simp [hu]) (by simp [hu'])
    refine hend (c :: a) x (by rw [hax]; rfl) (List.cons_ne_nil _ _) hx ?_
    rw [← hcut, List.all_append, Bool.and_eq_true] at hb'
    exact hb'.1

theorem exists_of_captures_expression
    (h : captures (keep name expression :: blanks :: ps) s = some y) :
    ∃ e b u z, s = e ++ (b ++ u) ∧ e ≠ [] ∧ ',' ∉ e ∧ b.all isBlank ∧ captures ps u = some z := by
  obtain ⟨e, t, z, rfl, hne, he, ht, -⟩ := exists_of_captures_keep h
  obtain ⟨b, u, rfl, hb, hu⟩ := exists_of_captures_blanks ht
  refine ⟨e, b, u, z, rfl, hne, fun hmem => ?_, hb, hu⟩
  simpa using List.all_eq_true.1 he ',' hmem

/-- A word that is not blank at its ends is kept without the blanks around it. -/
theorem captures_of_trimmed {p : List Char} (hps : Anchored ps) (hp : ',' ∉ p)
    (hw : InBlanks e p) (ht : Trimmed e) (hu : captures ps u = some z) :
    captures (blanks :: keep name expression :: blanks :: ps) (p ++ u) =
      some ((name, e) :: z) := by
  obtain ⟨front, back, rfl, hfront, hback⟩ := hw
  have he : ',' ∉ e := fun h => hp (by simp [h])
  rw [blanks, captures_many, List.append_assoc, List.append_assoc]
  refine findSome?_greedy hfront (captures_lazy hps ht.ne_nil he hback hu ?_) ?_
  · -- the word ends with a character that is not blank
    rintro a x rfl - hx hblank
    obtain ⟨x, c, rfl⟩ := (List.eq_nil_or_concat x).resolve_left hx
    have hlast := ht.last c (by simp [← List.append_assoc])
    simp [hlast] at hblank
  · -- there are no more blanks in front of it, as it starts with such a character
    intro x t hxt hx hblank
    obtain ⟨c, e, rfl⟩ := List.exists_cons_of_ne_nil ht.ne_nil
    obtain ⟨d, x, rfl⟩ := List.exists_cons_of_ne_nil hx
    obtain ⟨rfl, -⟩ := List.cons.inj hxt
    simp [ht.first c rfl] at hblank

/-- Of blanks alone, the last one is kept. -/
theorem captures_of_blank {p : List Char} {c : Char} (hps : Anchored ps) (hblank : p.all isBlank)
    (hlast : p.getLast? = some c) (hu : captures ps u = some z) :
    captures (blanks :: keep name expression :: blanks :: ps) (p ++ u) =
      some ((name, [c]) :: z) := by
  obtain ⟨front, rfl⟩ : ∃ front, p = front ++ [c] :=
    ⟨_, (List.dropLast_append_getLast? _ hlast).symm⟩
  obtain ⟨hfront, hc⟩ : front.all isBlank ∧ [c].all isBlank := by simpa using hblank
  have hcomma : ',' ∉ [c] := comma_notMem_of_isBlank hc
  rw [blanks, captures_many, List.append_assoc]
  refine findSome?_greedy hfront
    (captures_lazy hps (List.cons_ne_nil _ _) hcomma (b := []) rfl hu ?_) ?_
  · -- one character has no shorter part
    intro a x hax ha hx
    obtain ⟨rfl, -⟩ | ⟨-, rfl⟩ := List.singleton_eq_append_iff.1 hax
    · exact absurd rfl ha
    · exact absurd rfl hx
  · -- if the last blank was read before, nothing would be left to keep
    intro x t hxt hx hxb
    by_contra hy
    obtain ⟨y, hy⟩ := Option.ne_none_iff_exists'.1 hy
    obtain ⟨e, b, u', z', rfl, he, hcomma', hb, hu'⟩ := exists_of_captures_expression hy
    have hsplit : [c] ++ u = x ++ (e ++ b) ++ u' := by simpa using hxt
    have hcut : [c] = x ++ (e ++ b) :=
      hps hsplit hcomma
        (by simp [comma_notMem_of_isBlank hxb, hcomma', comma_notMem_of_isBlank hb])
        (by simp [hu]) (by simp [hu'])
    obtain ⟨rfl, -⟩ | ⟨-, hnil⟩ := List.singleton_eq_append_iff.1 hcut
    · exact hx rfl
    · exact he (List.append_eq_nil_iff.1 hnil).1

theorem captures_component {p : List Char} (hps : Anchored ps) (hp : ',' ∉ p)
    (hc : Component p e) (hu : captures ps u = some z) :
    captures (blanks :: keep name expression :: blanks :: ps) (p ++ u) =
      some ((name, e) :: z) := by
  cases hc with
  | word hw ht => exact captures_of_trimmed hps hp hw ht hu
  | blank hblank hlast => exact captures_of_blank hps hblank hlast hu

/-- **An expression keeps its component.** -/
theorem captures_expression (hps : Anchored ps) :
    captures (blanks :: keep name expression :: blanks :: ps) s = some y ↔
      ∃ p u e z, s = p ++ u ∧ ',' ∉ p ∧ Component p e ∧ captures ps u = some z ∧
        y = (name, e) :: z := by
  constructor
  · intro h
    obtain ⟨a, t, rfl, ha, ht⟩ := exists_of_captures_blanks h
    obtain ⟨e', b, u, z, rfl, hne, he, hb, hu⟩ := exists_of_captures_expression ht
    have hp : ',' ∉ a ++ (e' ++ b) := by
      simp [comma_notMem_of_isBlank ha, he, comma_notMem_of_isBlank hb]
    -- what is kept of this text is its component, whatever the split is that was found
    have hne : a ++ (e' ++ b) ≠ [] := by simp [hne]
    obtain ⟨e, hc⟩ := exists_component hne
    refine ⟨_, u, e, z, by simp, hp, hc, hu, ?_⟩
    rw [show a ++ (e' ++ (b ++ u)) = a ++ (e' ++ b) ++ u by simp,
      captures_component hps hp hc hu] at h
    exact (Option.some.inj h).symm
  · rintro ⟨p, u, e, z, rfl, hp, hc, hu, rfl⟩
    exact captures_component hps hp hc hu

/-- The last expression of a tuple. -/
theorem captures_last_component_eq_some :
    captures (blanks :: keep name expression :: blanks :: [literal ')', finish]) s = some y ↔
      ∃ p e, s = p ++ [')'] ∧ ',' ∉ p ∧ Component p e ∧ y = [(name, e)] := by
  rw [captures_expression anchored_bracket]
  constructor
  · rintro ⟨p, u, e, z, rfl, hp, he, hu, rfl⟩
    obtain ⟨rfl, rfl⟩ := captures_bracket_eq_some.1 hu
    exact ⟨p, e, rfl, hp, he, rfl⟩
  · rintro ⟨p, e, rfl, hp, he, rfl⟩
    exact ⟨p, _, e, _, rfl, hp, he, captures_bracket_eq_some.2 ⟨rfl, rfl⟩, rfl⟩

section Word
variable {w back : List Char} (hps : Anchored ps) (hcomma : member ',' = false)
  (hblank : ∀ c, member c → isBlank c = false)
include hps hcomma hblank

theorem captures_greedy (hw : w ≠ []) (hmem : w.all member) (hback : back.all isBlank)
    (hu : captures ps u = some z) :
    captures (keep name (nonempty true member) :: blanks :: ps) (w ++ (back ++ u)) =
      some ((name, w) :: z) := by
  obtain ⟨c, w, rfl⟩ := List.exists_cons_of_ne_nil hw
  obtain ⟨hc, hmem⟩ : member c ∧ w.all member := by simpa using hmem
  rw [List.cons_append, captures_keep_nonempty_cons, if_pos hc]
  refine findSome?_greedy hmem (by simp [captures_blanks hps hback hu]) fun x t hxt hx hxm => ?_
  by_contra hy
  obtain ⟨y, hy⟩ := Option.ne_none_iff_exists'.1 hy
  obtain ⟨z', hz', -⟩ := Option.map_eq_some_iff.1 hy
  obtain ⟨b, u', rfl, hb, hu'⟩ := exists_of_captures_blanks hz'
  have hxcomma : ',' ∉ x := fun h => by simp [List.all_eq_true.1 hxm _ h] at hcomma
  have hsplit : back ++ u = x ++ b ++ u' := by simpa using hxt
  have hcut : back = x ++ b :=
    hps hsplit (comma_notMem_of_isBlank hback)
      (by simp [hxcomma, comma_notMem_of_isBlank hb]) (by simp [hu]) (by simp [hu'])
  obtain ⟨d, x, rfl⟩ := List.exists_cons_of_ne_nil hx
  have hd : member d := List.all_eq_true.1 hxm d List.mem_cons_self
  have hd' : isBlank d := List.all_eq_true.1 hback d (by simp [hcut])
  simp [hblank d hd] at hd'

/-- **A word is kept without the blanks around it.** -/
theorem captures_word :
    captures (blanks :: keep name (nonempty true member) :: blanks :: ps) s = some y ↔
      ∃ p u w z, s = p ++ u ∧ InBlanks w p ∧ w ≠ [] ∧ w.all member ∧ captures ps u = some z ∧
        y = (name, w) :: z := by
  constructor
  · intro h
    obtain ⟨a, t, rfl, ha, ht⟩ := exists_of_captures_blanks h
    obtain ⟨w, v, y, rfl, hw, hmem, hv, rfl⟩ := exists_of_captures_keep ht
    obtain ⟨b, u, rfl, hb, hu⟩ := exists_of_captures_blanks hv
    exact ⟨a ++ w ++ b, u, w, y, by simp, ⟨a, b, rfl, ha, hb⟩, hw, hmem, hu, rfl⟩
  · rintro ⟨p, u, w, z, rfl, ⟨front, back, rfl, hfront, hback⟩, hw, hmem, hu, rfl⟩
    rw [blanks, captures_many, List.append_assoc, List.append_assoc]
    refine findSome?_greedy hfront
      (captures_greedy hps hcomma hblank hw hmem hback hu) fun x t hxt hx hxb => ?_
    -- there are no more blanks in front of the word, as it starts with a character of its class
    obtain ⟨c, w, rfl⟩ := List.exists_cons_of_ne_nil hw
    obtain ⟨d, x, rfl⟩ := List.exists_cons_of_ne_nil hx
    obtain ⟨rfl, -⟩ := List.cons.inj hxt
    have hc : member c := List.all_eq_true.1 hmem c List.mem_cons_self
    simp [hblank c hc] at hxb

end Word

end Parts

end CircuitTrace
