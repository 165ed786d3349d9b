import CircuitTrace.Proofs.Gate.Component
import CircuitTrace.Proofs.Pauli.Names
import CircuitTrace.Proofs.Trace.Step

/-! # Which texts are the arguments of a Pauli exponential

The arguments of an exponential have a grammar (`ExponentialArgs.Written`): in round brackets, a
list in square brackets whose components name operators, a comma, and a component without commas for
the angle. A pattern reads the frame of it (`ExponentialArgs.pattern`), and the names are read from
what the pattern keeps.

A tracer puts round brackets around arguments that have none. The operators and the angle that were
written into them are therefore found in the operation that it captures
(`ExponentialArgs.parse_formatArgs`). -/

namespace CircuitTrace.ExponentialArgs

open Text Text.Pattern

/-! ### The grammar -/

/-- The text is a list in square brackets and a text without commas, in round brackets. -/
def Framed (s list angle : List Char) : Prop :=
  ∃ front back, s = '(' :: (front ++ '[' :: (list ++ ']' :: (back ++ ',' :: (angle ++ [')'])))) ∧
    front.all isBlank ∧ back.all isBlank ∧ ']' ∉ list ∧ ',' ∉ angle

/-- The text is the arguments of an exponential. -/
def Written (s : List Char) (args : ExponentialArgs) : Prop :=
  ∃ list angle e, Framed s list angle ∧
    List.Forall₂ (fun name p => Pauli.HasName p (trim name)) (components list) args.basis ∧
    Component angle e ∧ args.angle = String.ofList e

/-! ### The arguments that are parsed -/

theorem parts?_eq_some_iff {s list : List Char} {x : String} :
    parts? s = some (list, x) ↔
      ∃ angle e, Framed s list angle ∧ Component angle e ∧ x = String.ofList e := by
  have hopen : isBlank '[' = false := by decide
  have hcomma : isBlank ',' = false := by decide
  constructor
  · intro h
    unfold parts? at h
    split at h
    · next inner hinner =>
      obtain ⟨u, hu, hfront⟩ := Option.map_eq_some_iff.1 hinner
      obtain ⟨front, rfl, hblank⟩ := (trimLeft_eq_cons_iff hopen).1 hfront
      split at h
      · next list' rest hcut =>
        obtain ⟨rfl, hlist⟩ := cutFirst_eq_some_iff.1 hcut
        split at h
        · next angle hback =>
          obtain ⟨back, rfl, hblank'⟩ := (trimLeft_eq_cons_iff hcomma).1 hback
          split at h
          · cases h
          · next hangle =>
            obtain ⟨x', hx', heq⟩ := Option.map_eq_some_iff.1 h
            obtain ⟨rfl, rfl⟩ := Prod.mk.inj heq
            obtain ⟨e, he, rfl⟩ := expression?_eq_some_iff.1 hx'
            refine ⟨angle, e, ⟨front, back, ?_, hblank, hblank', hlist, by simpa using hangle⟩, he,
              rfl⟩
            simpa using unbracket_eq_some_iff.1 hu
        · cases h
      · cases h
    · cases h
  · rintro ⟨angle, e, ⟨front, back, rfl, hblank, hblank', hlist, hangle⟩, he, rfl⟩
    have hu : unbracket ('(' :: (front ++ '[' :: (list ++ ']' :: (back ++ ',' ::
        (angle ++ [')']))))) = some (front ++ '[' :: (list ++ ']' :: (back ++ ',' :: angle))) :=
      unbracket_eq_some_iff.2 (by simp)
    rw [parts?, hu, Option.map_some, trimLeft_append_cons hopen hblank]
    simp only [cutFirst_append_cons hlist, trimLeft_append_cons hcomma hblank']
    rw [if_neg (by simpa using hangle), expression?_eq_some_iff.2 ⟨e, he, rfl⟩]
    rfl

theorem ofText_eq_ok_iff {s : List Char} {args : ExponentialArgs} :
    ofText s = .ok args ↔ Written s args := by
  constructor
  · intro h
    unfold ofText at h
    split at h
    · cases h
    · next list x hparts =>
      obtain ⟨angle, e, hframed, he, rfl⟩ := parts?_eq_some_iff.1 hparts
      split at h
      · cases h
      · next basis hbasis =>
        obtain rfl := Except.ok.inj h
        exact ⟨list, angle, e, hframed, basisOf_eq_ok_iff.1 hbasis, he, rfl⟩
  · rintro ⟨list, angle, e, hframed, hbasis, he, hangle⟩
    rw [ofText, parts?_eq_some_iff.2 ⟨angle, e, hframed, he, hangle⟩]
    simp only [basisOf_eq_ok_iff.2 hbasis]

/-! ### The arguments that a pattern keeps -/

/-- The pattern of the arguments. -/
def pattern : List Pattern :=
  [literal '(', blanks, literal '[', keep "basis" (many true (· ≠ ']')), literal ']', blanks,
    literal ',', blanks, keep "angle" expression, blanks, literal ')', finish]

/-- The arguments that stand in what was kept. -/
def ofKept (kept : Kept) : Except ArgumentFault ExponentialArgs :=
  match kept.lookup "basis", kept.lookup "angle" with
  | some list, some angle =>
    match basisOf list with
    | .error e => .error (.unknownPauli e)
    | .ok basis => .ok ⟨basis, String.ofList angle⟩
  | _, _ => .error .notExponential

theorem captures_pattern_eq_some {s : List Char} {y : Kept} :
    captures pattern s = some y ↔
      ∃ list angle e, Framed s list angle ∧ Component angle e ∧
        y = [("basis", list), ("angle", e)] := by
  have hopen : isBlank '[' = false := by decide
  have hcomma : isBlank ',' = false := by decide
  have hclose : (decide (']' ≠ ']')) = false := by decide
  have hlist : ∀ list : List Char, list.all (· ≠ ']') ↔ ']' ∉ list := fun list => by
    simp [List.all_eq_true, ← List.forall_mem_ne']
  rw [pattern, captures_literal_eq_some]
  constructor
  · rintro ⟨s, rfl, hs⟩
    obtain ⟨front, t, rfl, hfront, ht⟩ := (captures_many_literal hopen).1 hs
    obtain ⟨list, u, z, rfl, hnot, hu, rfl⟩ := (captures_keep_many_literal hclose).1 ht
    obtain ⟨back, v, rfl, hback, hv⟩ := (captures_many_literal hcomma).1 hu
    obtain ⟨angle, e, rfl, hangle, he, rfl⟩ := captures_last_component_eq_some.1 hv
    exact ⟨list, angle, e, ⟨front, back, rfl, hfront, hback, (hlist _).1 hnot, hangle⟩, he, rfl⟩
  · rintro ⟨list, angle, e, ⟨front, back, rfl, hfront, hback, hnot, hangle⟩, he, rfl⟩
    refine ⟨_, rfl, (captures_many_literal hopen).2 ⟨front, _, rfl, hfront, ?_⟩⟩
    refine (captures_keep_many_literal hclose).2 ⟨list, _, _, rfl, (hlist _).2 hnot, ?_, rfl⟩
    exact (captures_many_literal hcomma).2 ⟨back, _, rfl, hback,
      captures_last_component_eq_some.2 ⟨angle, e, rfl, hangle, he, rfl⟩⟩

theorem ofText_eq_captures (s : List Char) :
    ofText s = (captures pattern s).elim (.error .notExponential) ofKept := by
  cases h : captures pattern s with
  | some y =>
    obtain ⟨list, angle, e, hframed, he, rfl⟩ := captures_pattern_eq_some.1 h
    rw [ofText, parts?_eq_some_iff.2 ⟨angle, e, hframed, he, rfl⟩]
    rfl
  | none =>
    cases hparts : parts? s with
    | none => simp [ofText, hparts]
    | some r =>
      obtain ⟨list, x⟩ := r
      obtain ⟨angle, e, hframed, he, -⟩ := parts?_eq_some_iff.1 hparts
      rw [captures_pattern_eq_some.2 ⟨list, angle, e, hframed, he, rfl⟩] at h
      cases h

/-! ### Acceptance -/

theorem exists_written_iff {s : List Char} :
    (∃ args, Written s args) ↔
      ∃ list angle, Framed s list angle ∧ angle ≠ [] ∧
        ∀ name ∈ list.splitOn ',', name.all isBlank = false → ∃ p : Pauli, p.HasName (trim name) := by
  constructor
  · rintro ⟨args, list, angle, e, hframed, hbasis, he, -⟩
    exact ⟨list, angle, hframed, he.ne_nil, exists_basisOf_iff.1 ⟨_, basisOf_eq_ok_iff.2 hbasis⟩⟩
  · rintro ⟨list, angle, hframed, hne, hnames⟩
    obtain ⟨e, he⟩ := exists_component hne
    obtain ⟨basis, hbasis⟩ := exists_basisOf_iff.2 hnames
    exact ⟨⟨basis, String.ofList e⟩, list, angle, e, hframed, basisOf_eq_ok_iff.1 hbasis, he, rfl⟩

/-! ### Arguments that are written and traced -/

/-- The arguments in writing, without round brackets. -/
def format (args : ExponentialArgs) : String :=
  "[" ++ Pauli.listing args.basis ++ "], " ++ args.angle

theorem written_format (args : ExponentialArgs) (ht : Trimmed args.angle.toList)
    (hcomma : ',' ∉ args.angle.toList) : Written ("(" ++ args.format ++ ")").toList args := by
  refine ⟨(Pauli.listing args.basis).toList, ' ' :: args.angle.toList, args.angle.toList,
    ⟨[], [], ?_, rfl, rfl, Pauli.bracket_notMem_listing _, ?_⟩, ?_, ?_, ?_⟩
  · simp [format]
  · simp [hcomma]
  · exact Pauli.forall₂_hasName_listing (w := []) rfl args.basis
  · exact .word ⟨[' '], [], by simp, by decide, rfl⟩ ht
  · simp

/-- **Arguments are parsed back from the display arguments**, whether they are written with round
brackets or without. -/
theorem parse_formatArgs {args : ExponentialArgs} (ht : Trimmed args.angle.toList)
    (hcomma : ',' ∉ args.angle.toList) {written : String}
    (hw : written = args.format ∨ written = "(" ++ args.format ++ ")") :
    parse (formatArgs written) = .ok args := by
  have hformat : formatArgs written = some ("(" ++ args.format ++ ")") := by
    obtain rfl | rfl := hw
    · simp [formatArgs, format]
    · simp [formatArgs]
  rw [hformat]
  exact ofText_eq_ok_iff.2 (written_format args ht hcomma)

/-- **The arguments of a Pauli exponential are parsed by their grammar.** A text is parsed as its
pattern reads it. The arguments are those that are written in the text, and some are written in it
if it is a list in square brackets, a comma, and a text that is not empty and has no commas, in
round brackets, and each component of the list that is not blank names an operator. Arguments with
an angle that has no blanks around it and no commas are found in the operation that a tracer
captures for them. -/
theorem exponential_arguments_by_grammar :
    (∀ s : String,
      parse (some s) = (captures pattern s.toList).elim (.error .notExponential) ofKept ∧
      (∀ args, parse (some s) = .ok args ↔ Written s.toList args) ∧
      ((∃ args, parse (some s) = .ok args) ↔
        ∃ list angle, Framed s.toList list angle ∧ angle ≠ [] ∧
          ∀ name ∈ list.splitOn ',', name.all isBlank = false →
            ∃ p : Pauli, p.HasName (trim name))) ∧
    ∀ args : ExponentialArgs, Trimmed args.angle.toList → ',' ∉ args.angle.toList →
      ∀ m : Metadata, m.formattedNonQubitArgs = args.format ∨
          m.formattedNonQubitArgs = "(" ++ args.format ++ ")" →
        ∀ t : Tracer, t.underMeasurement = false → m.lacksTarget = false →
          ∃ op, (t.step (.start (.ok (some m)))).1.stack = some op :: t.stack ∧
            op.gate = m.label ∧ parse op.displayArgs = .ok args := by
  have hparse : ∀ s : String, parse (some s) = ofText s.toList := fun _ => rfl
  refine ⟨fun s => ?_, fun args ht hcomma m hm t hunder htarget => ?_⟩
  · simp only [hparse]
    exact ⟨ofText_eq_captures _, fun args => ofText_eq_ok_iff,
      by simp only [ofText_eq_ok_iff, exists_written_iff]⟩
  · have hstep : (t.step (.start (.ok (some m)))).1.stack =
        some (m.described t.registers) :: t.stack := by
      rw [Tracer.underMeasurement_eq] at hunder
      rw [Tracer.step, Tracer.start_fst]
      simp [Tracer.opened, hunder, htarget]
    exact ⟨_, hstep, rfl, parse_formatArgs ht hcomma hm⟩

theorem exponential_arguments_of_two_factors :
    Trimmed "0.5".toList ∧ ',' ∉ "0.5".toList ∧ Tracer.empty.underMeasurement = false ∧
      ∃ op, (Tracer.empty.step (.start (.ok (some
          ⟨"Exp", false, false, false, [], [0, 1], "[PauliX, PauliZ], 0.5"⟩)))).1.stack =
            [some op] ∧
        op.gate = "Exp" ∧ parse op.displayArgs = .ok ⟨[.X, .Z], "0.5"⟩ := by
  have ht : Trimmed "0.5".toList := .of_ends rfl rfl (by decide) (by decide)
  exact ⟨ht, by decide, rfl, exponential_arguments_by_grammar.2 ⟨[.X, .Z], "0.5"⟩ ht (by decide)
    ⟨"Exp", false, false, false, [], [0, 1], "[PauliX, PauliZ], 0.5"⟩ (.inl (by decide))
    Tracer.empty rfl rfl⟩

end CircuitTrace.ExponentialArgs
