import CircuitTrace.Proofs.Translation.Tour

/-! # Strict and lenient translations

Strict options turn an operation that cannot be expressed into an error, and they change nothing
else. Everywhere else the options only matter by their depth (`outcome_arrive_under`), so a strict
tour and a lenient one go side by side up to the first operation of that kind. There the strict tour
ends, with the label that is the first one the lenient tour notes (`tour_strictly`), and a label
that was noted stays the first one (`stable_firstLabel`).

A lenient walk is never stopped by an operation that cannot be expressed (`halt_tour_lenient`).
Hence a strict translation is the lenient one if that has noted nothing, and an error about its
first label otherwise (`script_strictly`), whichever comes first in the path: the operation that
cannot be expressed, or one whose arguments make no sense. -/

namespace CircuitTrace

/-- The options, but strict. -/
def Config.strictly (config : Config) : Config := { config with strict := true }

/-- The options, but lenient. -/
def Config.leniently (config : Config) : Config := { config with strict := false }

namespace Operation

/-- The error that an operation cannot be expressed is not one about the primitives of a stop. -/
theorem stopPrimitives_ne_unsupported (key : Nat) (op : Operation) (label : String) :
    op.stopPrimitives key ≠ .error (.error (.unsupported label)) := by
  intro h
  cases stopsWith_of_stopPrimitives h

end Operation

namespace Translation

/-! ### Labels -/

/-- A label that was noted first stays the first one. -/
theorem stable_firstLabel (label : String) :
    Stable fun t => t.gatesErrored.head? = some label := by
  refine Stable.of_write (fun _ h => h) (fun t p h => ?_) fun t label' h => ?_
  · rw [gatesErrored_write]
    exact h
  · unfold noting noteOnce
    split_ifs
    · exact h
    · rw [List.head?_append, h]
      rfl

theorem gatesErrored_settle (t : Translation) : ∀ r : Except Halt (List Primitive),
    (t.settle r).translation.gatesErrored = t.gatesErrored := by
  have hwrite : ∀ (ps : List Primitive) (t : Translation),
      (t.writeAll ps).gatesErrored = t.gatesErrored := by
    intro ps
    induction ps with
    | nil => exact fun _ => rfl
    | cons p ps ih => exact fun t => (ih (t.write p)).trans (gatesErrored_write t p)
  rintro (halt | ps)
  · rfl
  · exact hwrite ps t

/-- Only unsupported operations are noted. -/
theorem gatesErrored_arrive {op : Operation} (h : ¬ op.Unsupported) (depth : Nat)
    (t : Translation) : (arrive (depth, op) t).translation.gatesErrored = t.gatesErrored := by
  obtain ⟨htranslation, -⟩ := Prod.mk.inj (outcome_arrive_of_not_unsupported h depth t)
  rw [htranslation, gatesErrored_settle]
  rfl

/-- **At an unsupported operation** a lenient walk notes its label and goes on. -/
theorem arrive_lenient {op : Operation} (h : op.Unsupported) {t : Translation}
    (hlenient : t.config.strict = false) (depth : Nat) :
    (arrive (depth, op) t).halt = none ∧
      (arrive (depth, op) t).translation.gatesErrored = noteOnce t.gatesErrored op.gate := by
  obtain ⟨htranslation, hhalt⟩ := Prod.mk.inj (outcome_arrive_of_unsupported h depth t)
  rw [htranslation, hhalt, unhandled_eq]
  have hreaching : (t.reaching depth).config.strict = false := hlenient
  rw [if_neg (by rw [hreaching]; exact Bool.false_ne_true)]
  split_ifs
  · exact ⟨rfl, gatesErrored_write _ _⟩
  · exact ⟨rfl, rfl⟩

/-- A strict walk ends there. -/
theorem halt_arrive_strict {op : Operation} (h : op.Unsupported) {t : Translation}
    (hstrict : t.config.strict = true) (depth : Nat) :
    (arrive (depth, op) t).halt = some (.error (.unsupported op.gate)) := by
  obtain ⟨-, hhalt⟩ := Prod.mk.inj (outcome_arrive_of_unsupported h depth t)
  have hreaching : (t.reaching depth).config.strict = true := hstrict
  rw [hhalt, unhandled_eq, if_pos hreaching]

/-! ### Side by side -/

/-- **A strict tour does what a lenient one does, up to the first label.** Either the lenient tour
notes nothing and the strict one has the same outcome, or the strict one ends with the label that
the lenient one notes first. -/
theorem tour_strictly : ∀ (stops : List (Nat × Operation)) {t : Translation},
    t.config.strict = false → t.gatesErrored = [] →
    ((tour stops t).translation.gatesErrored = [] ∧
      (tour stops (t.under t.config.strictly)).outcome =
        ((tour stops t).translation.under t.config.strictly, (tour stops t).halt)) ∨
    ∃ label, (tour stops t).translation.gatesErrored.head? = some label ∧
      (tour stops (t.under t.config.strictly)).halt = some (.error (.unsupported label))
  | [], t, _, hnone => Or.inl ⟨hnone, rfl⟩
  | (depth, op) :: stops, t, hlenient, hnone => by
    rw [tour, tour]
    by_cases hop : op.Unsupported
    · -- the strict tour ends here, and the label of this operation is the first one
      obtain ⟨-, hnoted⟩ := arrive_lenient hop hlenient depth
      have hfirst : (arrive (depth, op) t).translation.gatesErrored.head? = some op.gate := by
        rw [hnoted, hnone]
        rfl
      have hstrict := halt_arrive_strict hop (t := t.under t.config.strictly) rfl depth
      refine Or.inr ⟨op.gate, ?_, ?_⟩
      · exact Walk.holds_andThen (P := fun t => t.gatesErrored.head? = some op.gate) hfirst
          fun _ hs => (stable_firstLabel op.gate).tour stops hs
      · rw [Walk.andThen_of_halt hstrict, hstrict]
    · -- both tours do the same here
      have hconfig := config_arrive (depth, op) t
      have hnone' := (gatesErrored_arrive hop depth t).trans hnone
      obtain ⟨htranslation, hhalt⟩ := Prod.mk.inj
        (outcome_arrive_under hop t.config.strictly rfl depth)
      rcases hlast : (arrive (depth, op) t).halt with _ | halt
      · rw [Walk.andThen_of_ok hlast, Walk.andThen_of_ok (hhalt.trans hlast), htranslation]
        have hrest := tour_strictly stops (t := (arrive (depth, op) t).translation)
          (by rw [hconfig]; exact hlenient) hnone'
        rw [hconfig] at hrest
        exact hrest
      · rw [Walk.andThen_of_halt hlast, Walk.andThen_of_halt (hhalt.trans hlast)]
        exact Or.inl ⟨hnone', Prod.ext htranslation hhalt⟩

theorem halt_arrive_lenient (label : String) (depth : Nat) (op : Operation) {t : Translation}
    (hlenient : t.config.strict = false) :
    (arrive (depth, op) t).halt ≠ some (.error (.unsupported label)) := by
  by_cases hop : op.Unsupported
  · rw [(arrive_lenient hop hlenient depth).1]
    exact nofun
  · obtain ⟨-, hhalt⟩ := Prod.mk.inj (outcome_arrive_of_not_unsupported hop depth t)
    rw [hhalt]
    rcases hprimitives : op.stopPrimitives t.measurementKey with halt | ps
    · rintro ⟨⟩
      exact op.stopPrimitives_ne_unsupported t.measurementKey label hprimitives
    · exact nofun

/-- **A lenient tour is not stopped by an unsupported operation.** -/
theorem halt_tour_lenient (label : String) (stops : List (Nat × Operation)) {t : Translation}
    (hlenient : t.config.strict = false) :
    (tour stops t).halt ≠ some (.error (.unsupported label)) := by
  intro h
  obtain ⟨stop, -, s, hconfig, hhalt⟩ := exists_halt_arrive h
  exact halt_arrive_lenient label stop.1 stop.2 (by rw [hconfig]; exact hlenient) hhalt

end Translation

/-! ### Translations -/

/-- The labels of the unhandled operations that a translation of a path notes. -/
def ExecutionPath.noted (path : ExecutionPath) (config : Config) : List String :=
  ((Translation.new config).visitAll path.operations).translation.gatesErrored

/-- **A strict translation is the lenient one** if that notes nothing, and an error about the first
label that it notes otherwise. -/
theorem script_strictly (path : ExecutionPath) (config : Config) :
    (translate path config.strictly).script =
      match (path.noted config.leniently).head? with
      | none => (translate path config.leniently).script
      | some label => .error (.error (.unsupported label)) := by
  unfold ExecutionPath.noted
  rw [script_translate, script_translate, Translation.visitAll_eq_tour,
    Translation.visitAll_eq_tour]
  have hconfig := Translation.config_tour (Operation.stopsAll 1 path.operations)
    (Translation.new config.leniently)
  rcases Translation.tour_strictly (Operation.stopsAll 1 path.operations)
    (t := Translation.new config.leniently) rfl rfl with ⟨hnone, hsame⟩ | ⟨label, hlabel, hhalt⟩
  · rw [hnone]
    exact Walk.script_under hsame (by rw [hconfig]; rfl) _
  · rw [hlabel]
    exact Walk.script_eq_error_iff.mpr hhalt

/-- A lenient translation never fails with an operation that cannot be expressed. -/
theorem script_leniently_ne_unsupported (path : ExecutionPath) (config : Config) (label : String) :
    (translate path config.leniently).script ≠ .error (.error (.unsupported label)) := by
  rw [script_translate, Translation.visitAll_eq_tour]
  exact fun h => Translation.halt_tour_lenient label (Operation.stopsAll 1 path.operations)
    (t := Translation.new config.leniently) rfl (Walk.script_eq_error_iff.mp h)

/-- **Strict and lenient translations agree.** What a strict translation gives, be it a script, an
error about arguments that make no sense or a broken contract, the lenient one gives too; if the
strict one fails because an operation cannot be expressed, its label is the first one that the
lenient one notes; and if the lenient one gives a script and notes no label, the strict one gives
the same script. -/
theorem strict_translation_agrees (path : ExecutionPath) (config : Config) :
    let strict := (translate path config.strictly).script
    let lenient := (translate path config.leniently).script
    (∀ text, strict = .ok text → lenient = .ok text) ∧
      (∀ gate args fault, strict = .error (.error (.malformed gate args fault)) →
        lenient = .error (.error (.malformed gate args fault))) ∧
      (∀ label, strict = .error (.error (.unsupported label)) →
        (path.noted config.leniently).head? = some label) ∧
      (∀ breach, strict = .error (.breach breach) → lenient = .error (.breach breach)) ∧
      (∀ text, lenient = .ok text → path.noted config.leniently = [] → strict = .ok text) := by
  intro strict lenient
  have hstrict : strict = match (path.noted config.leniently).head? with
      | none => lenient
      | some label => .error (.error (.unsupported label)) := script_strictly path config
  rcases hnoted : (path.noted config.leniently).head? with _ | first
  · rw [hnoted] at hstrict
    have hsame : strict = lenient := hstrict
    rw [hsame]
    refine ⟨fun _ h => h, fun _ _ _ h => h, fun label h => ?_, fun _ h => h, fun _ h _ => h⟩
    exact absurd h (script_leniently_ne_unsupported path config label)
  · rw [hnoted] at hstrict
    have herror : strict = .error (.error (.unsupported first)) := hstrict
    rw [herror]
    refine ⟨nofun, nofun, ?_, nofun, fun _ _ hnone => ?_⟩
    · rintro label ⟨⟩
      rfl
    · rw [hnone] at hnoted
      cases hnoted

/-- A call that cannot be expressed and one whose arguments make no sense, in both orders; and a
call that can be expressed. -/
theorem strict_translation_agrees_of_three :
    let foo : Operation := { Operation.ofGate "Foo" with targets := [.qubit 0] }
    let clifford : Operation :=
      { Operation.ofGate "Interface_Clifford" with
        displayArgs := some "(PauliX)", targets := [.qubit 0] }
    let h : Operation := { Operation.ofGate "H" with targets := [.qubit 0] }
    let calling : List Operation → ExecutionPath := fun calls =>
      ⟨[⟨0, 0⟩], [{ Operation.ofGate "Main" with children := some calls }]⟩
    let fault : Halt := .error (.malformed "Interface_Clifford" (some "(PauliX)") .notClifford)
    (translate (calling [foo, clifford]) Config.default.leniently).script = .error fault ∧
      ((calling [foo, clifford]).noted Config.default.leniently).head? = some "Foo" ∧
      (translate (calling [clifford, foo]) Config.default.leniently).script = .error fault ∧
      ∃ text, (translate (calling [h]) Config.default.strictly).script = .ok text ∧
        (translate (calling [h]) Config.default.leniently).script = .ok text := by
  intro foo clifford h calling fault
  have hfoo : (translate (calling [foo, clifford]) Config.default.strictly).script =
      .error (.error (.unsupported "Foo")) := by
    rw [script_translate]
    exact Walk.script_eq_error_iff.mpr (by decide +kernel)
  have hclifford : (translate (calling [clifford, foo]) Config.default.strictly).script =
      .error fault := by
    rw [script_translate]
    exact Walk.script_eq_error_iff.mpr (by decide +kernel)
  obtain ⟨text, htext⟩ :
      ∃ text, (translate (calling [h]) Config.default.strictly).script = .ok text := by
    have hok : ((Translation.new Config.default.strictly).visitAll
        (calling [h]).operations).halt = none := by decide +kernel
    rw [script_translate, Walk.script, hok]
    exact ⟨_, rfl⟩
  obtain ⟨-, -, hlabel, -⟩ := strict_translation_agrees (calling [foo, clifford]) .default
  obtain ⟨-, hmalformed, -⟩ := strict_translation_agrees (calling [clifford, foo]) .default
  obtain ⟨hscript, -⟩ := strict_translation_agrees (calling [h]) .default
  refine ⟨?_, hlabel _ hfoo, hmalformed _ _ _ hclifford, text, htext, hscript text htext⟩
  rw [script_translate]
  exact Walk.script_eq_error_iff.mpr (by decide +kernel)

end CircuitTrace
