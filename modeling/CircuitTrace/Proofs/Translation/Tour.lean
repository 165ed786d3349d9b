import CircuitTrace.Proofs.Translation.Frontier
import CircuitTrace.Proofs.Translation.Reached

/-! # The stops of a walk

A walk comes to one operation after the other, callers before their calls, each at its depth
(`Operation.stopsAll`). What it does at such a *stop* (`Translation.arrive`) depends on the
operation and on the translation so far, and not on the tree around it. So a walk is a *tour* of its
stops (`visitAll_eq_tour`), and what holds of walks is shown by induction over a list.

There are two kinds of stops. At an operation that calls nothing and is not supported its label is
noted (`outcome_arrive_of_unsupported`). At all others primitives are settled that depend on the
operation and the key of the next measurement alone (`outcome_arrive_of_not_unsupported`), so the
options matter there by their depth only (`outcome_arrive_under`). A walk stops there
only at an argument that cannot be read, or at a measurement or a reset that does not act on one
qubit (`stopsWith_of_stopPrimitives`).

A stable property holds along a tour (`Stable.tour`), and two tours of the same stops keep to a
relation that they keep to at every stop (`inStep_tour`). A translation gives the script of its walk
(`script_translate`). -/

namespace CircuitTrace

namespace Operation

/-! ### Stops -/

mutual

/-- **The stops of a walk** in a tree that stands at a depth: the operations that it reaches, with
their depths. -/
def stops (depth : Nat) (op : Operation) : List (Nat × Operation) :=
  match op with
  | op@⟨gate, _, children, _, _, _, _, _⟩ =>
    match GateClass.classify gate with
    | some _ => [(depth, op)]
    | none => (depth, op) :: stopsCalls (depth + 1) children

/-- The stops below an operation that is expanded. -/
def stopsCalls (depth : Nat) (children : Option (List Operation)) : List (Nat × Operation) :=
  match children with
  | some ops => stopsAll depth ops
  | none => []

/-- The stops in trees one after the other. -/
def stopsAll (depth : Nat) (ops : List Operation) : List (Nat × Operation) :=
  match ops with
  | [] => []
  | op :: ops => stops depth op ++ stopsAll depth ops

end

/-- **A walk cannot express the operation**: it calls nothing and is not supported. -/
def Unsupported (op : Operation) : Prop := op.children = none ∧ ¬ op.Supported

instance : DecidablePred Unsupported := fun op =>
  inferInstanceAs (Decidable (op.children = none ∧ ¬ op.Supported))

/-- **The primitives that are written at a stop**, unless the operation is unsupported; `key` is the
key of the next measurement. -/
def stopPrimitives (key : Nat) (op : Operation) : Except Halt (List Primitive) :=
  match GateClass.classify op.gate, op.children with
  | some cls, _ => op.classPrimitives key cls
  | none, some _ => .ok []
  | none, none => if op.gate = phaseMarkerLabel then .ok [] else op.exponential

/-- **What stops an operation**: its arguments make no sense, or it has to act on one qubit and does
not. -/
inductive StopsWith (op : Operation) : Halt → Prop where
  | arguments (fault : ArgumentFault) : StopsWith op (op.malformed fault)
  | qubits {cls : GateClass} (hcls : GateClass.classify op.gate = some cls)
      (hone : cls = .measurement ∨ cls = .reset) (hqubits : ∀ q, op.ownQubits ≠ [q]) (b : Breach) :
      StopsWith op (.breach b)

theorem stopsWith_of_stopPrimitives {op : Operation} {key : Nat} {halt : Halt}
    (h : op.stopPrimitives key = .error halt) : op.StopsWith halt := by
  have harguments : ∀ {r : Except ArgumentFault (List Primitive)}, op.checked r = .error halt →
      op.StopsWith halt := by
    rintro (fault | ps) h
    · cases h
      exact .arguments fault
    · cases h
  unfold stopPrimitives at h
  split at h
  · next cls hcls =>
    have hqubits : cls = .measurement ∨ cls = .reset →
        ∀ {breach : Nat → Breach} {f : Nat → List Primitive},
          (op.onlyQubit breach).map f = .error halt → op.StopsWith halt := by
      intro hone breach f h
      rcases honly : op.onlyQubit breach with halt' | q <;> rw [honly] at h
      · obtain rfl : halt' = halt := Except.error.inj h
        rw [onlyQubit_eq_error honly]
        refine .qubits hcls hone (fun q hq => ?_) _
        rw [onlyQubit_eq_ok_iff.mpr hq] at honly
        cases honly
      · cases h
    cases cls with
    | clifford => exact harguments h
    | rotation => exact harguments h
    | measurement => exact hqubits (.inl rfl) h
    | reset => exact hqubits (.inr rfl) h
    | passThrough | canonicalCx | noOp => cases h
  · cases h
  · split_ifs at h
    exact harguments h

theorem classify_of_unsupported {op : Operation} (h : op.Unsupported) :
    GateClass.classify op.gate = none := by
  rcases hcls : GateClass.classify op.gate with _ | cls
  · rfl
  · exact absurd (Or.inl (by rw [hcls]; rfl)) h.2

end Operation

/-- Where a walk got and what stopped it, without what it logged. -/
def Walk.outcome (w : Walk) : Translation × Option Halt := (w.translation, w.halt)

namespace Translation

/-! ### Tours -/

/-- The walk comes to an operation at a depth. -/
def arrive (stop : Nat × Operation) (t : Translation) : Walk :=
  (t.enter stop.2 stop.1).andThen fun t =>
    match GateClass.classify stop.2.gate, stop.2.children with
    | some cls, _ => t.decompose stop.2 cls
    | none, some _ => ⟨t, [], none⟩
    | none, none => t.childless stop.2

/-- **A walk from stop to stop**, until it is stopped. -/
def tour (stops : List (Nat × Operation)) (t : Translation) : Walk :=
  match stops with
  | [] => ⟨t, [], none⟩
  | stop :: stops => (arrive stop t).andThen (tour stops)

theorem andThen_done (w : Walk) : (w.andThen fun t => ⟨t, [], none⟩) = w := by
  rcases hhalt : w.halt with _ | halt
  · rw [Walk.andThen_of_ok hhalt, List.append_nil, ← hhalt]
  · exact Walk.andThen_of_halt hhalt _

theorem tour_append : ∀ (stops stops' : List (Nat × Operation)) (t : Translation),
    tour (stops ++ stops') t = (tour stops t).andThen (tour stops')
  | [], _, _ => rfl
  | stop :: stops, stops', t => by
    have hrest : tour (stops ++ stops') = fun t => (tour stops t).andThen (tour stops') :=
      funext (tour_append stops stops')
    rw [List.cons_append, tour, tour, hrest, Walk.andThen_assoc]

theorem tour_singleton (stop : Nat × Operation) (t : Translation) :
    tour [stop] t = arrive stop t := andThen_done _

mutual

/-- **A visit is a tour** of the stops in the tree. -/
theorem visit_eq_tour : ∀ (op : Operation) (callerDepth : Nat) (t : Translation),
    visit callerDepth op t = tour (op.stops (callerDepth + 1)) t
  | ⟨gate, args, children, controlled, adjoint, measurement, controls, targets⟩, depth, t => by
    rw [visit, Operation.stops]
    rcases hcls : GateClass.classify gate with _ | cls
    · exact visitCalls_eq_tour children hcls (depth + 1) t
    · rw [tour_singleton]
      unfold arrive
      simp only [hcls]

theorem visitCalls_eq_tour {gate : String} {args : Option String}
    {controlled adjoint measurement : Bool} {controls targets : List Register} :
    ∀ children : Option (List Operation), GateClass.classify gate = none →
    ∀ (depth : Nat) (t : Translation),
    let op : Operation :=
      ⟨gate, args, children, controlled, adjoint, measurement, controls, targets⟩
    ((t.enter op depth).andThen fun t => visitCalls depth op children t) =
      tour ((depth, op) :: Operation.stopsCalls (depth + 1) children) t
  | some ops, hcls, depth, t => by
    intro op
    have hrest : (fun t => visitCalls depth op (some ops) t) =
        tour (Operation.stopsCalls (depth + 1) (some ops)) :=
      funext fun t => by
        rw [visitCalls, Operation.stopsCalls]
        exact visitList_eq_tour ops depth t
    have harrive : arrive (depth, op) t = t.enter op depth := by
      unfold arrive
      simp only [op, hcls]
      exact andThen_done _
    rw [tour, harrive, hrest]
  | none, hcls, depth, t => by
    intro op
    rw [Operation.stopsCalls, tour_singleton]
    unfold arrive
    simp only [op, hcls, visitCalls]

theorem visitList_eq_tour : ∀ (ops : List Operation) (callerDepth : Nat) (t : Translation),
    visitList callerDepth ops t = tour (Operation.stopsAll (callerDepth + 1) ops) t
  | [], _, _ => rfl
  | op :: ops, depth, t => by
    have hrest : visitList depth ops = tour (Operation.stopsAll (depth + 1) ops) :=
      funext (visitList_eq_tour ops depth)
    rw [visitList, Operation.stopsAll, tour_append, visit_eq_tour op, hrest]

end

/-- **A walk through a path is a tour** of the stops in its trees. -/
theorem visitAll_eq_tour (t : Translation) (ops : List Operation) :
    t.visitAll ops = tour (Operation.stopsAll 1 ops) t := visitList_eq_tour ops 0 t

/-! ### What happens at a stop -/

/-- The translation when an operation at a depth has been entered. -/
def reaching (t : Translation) (depth : Nat) : Translation :=
  { t with cursor := if depth ≤ t.config.depth then t.cursor + 1 else t.cursor }

theorem outcome_enter_andThen (t : Translation) (op : Operation) (depth : Nat)
    (next : Translation → Walk) :
    ((t.enter op depth).andThen next).outcome = (next (t.reaching depth)).outcome := by
  rw [Walk.andThen_of_ok (halt_enter t op depth)]
  rfl

/-- **At an unsupported operation** its label is noted. -/
theorem outcome_arrive_of_unsupported {op : Operation} (h : op.Unsupported) (depth : Nat)
    (t : Translation) :
    (arrive (depth, op) t).outcome = ((t.reaching depth).unhandled op).outcome := by
  have hmarker : op.gate ≠ phaseMarkerLabel := fun hgate => h.2 (.inr (.inl hgate))
  have hexp : op.gate ≠ exponentialLabel := fun hgate => h.2 (.inr (.inr hgate))
  unfold arrive
  simp only [Operation.classify_of_unsupported h, h.1]
  rw [outcome_enter_andThen, childless, if_neg hmarker, if_neg hexp]

/-- **At any other operation** its primitives are settled. -/
theorem outcome_arrive_of_not_unsupported {op : Operation} (h : ¬ op.Unsupported) (depth : Nat)
    (t : Translation) :
    (arrive (depth, op) t).outcome =
      ((t.reaching depth).settle (op.stopPrimitives t.measurementKey)).outcome := by
  unfold arrive Operation.stopPrimitives
  rw [outcome_enter_andThen]
  rcases hcls : GateClass.classify op.gate with _ | cls
  · rcases hchildren : op.children with _ | ops
    · have hgate : op.gate = phaseMarkerLabel ∨ op.gate = exponentialLabel := by
        by_contra hnot
        refine h ⟨hchildren, fun hsupported => ?_⟩
        rcases hsupported with hclass | hgate
        · rw [hcls] at hclass
          cases hclass
        · exact hnot hgate
      simp only [childless]
      rcases hgate with hgate | hgate
      · rw [if_pos hgate, if_pos hgate]
        rfl
      · have hmarker : op.gate ≠ phaseMarkerLabel := by rw [hgate]; decide
        rw [if_neg hmarker, if_neg hmarker, if_pos hgate]
    · rfl
  · simp only
    exact Prod.ext (translation_decompose _ op cls) (halt_decompose _ op cls)

/-! ### Other options -/

/-- The translation under other options. -/
def under (t : Translation) (config : Config) : Translation := { t with config := config }

theorem write_under (t : Translation) (config : Config) (p : Primitive) :
    (t.under config).write p = (t.write p).under config := by
  unfold write
  split <;> rfl

theorem writeAll_under (config : Config) : ∀ (ps : List Primitive) (t : Translation),
    (t.under config).writeAll ps = (t.writeAll ps).under config
  | [], _ => rfl
  | p :: ps, t => by
    have hrest := writeAll_under config ps (t.write p)
    rw [← write_under] at hrest
    exact hrest

theorem outcome_settle_under (t : Translation) (config : Config)
    (r : Except Halt (List Primitive)) :
    ((t.under config).settle r).outcome =
      ((t.settle r).translation.under config, (t.settle r).halt) := by
  rcases r with halt | ps
  · rfl
  · exact Prod.ext (writeAll_under config ps t) rfl

theorem reaching_under {t : Translation} {config : Config} (h : config.depth = t.config.depth)
    (depth : Nat) : (t.under config).reaching depth = (t.reaching depth).under config := by
  unfold reaching under
  simp only [h]

/-- **Options matter by their depth only**, except at unsupported operations. -/
theorem outcome_arrive_under {op : Operation} (h : ¬ op.Unsupported) {t : Translation}
    (config : Config) (hdepth : config.depth = t.config.depth) (depth : Nat) :
    (arrive (depth, op) (t.under config)).outcome =
      ((arrive (depth, op) t).translation.under config, (arrive (depth, op) t).halt) := by
  obtain ⟨htranslation, hhalt⟩ := Prod.mk.inj (outcome_arrive_of_not_unsupported h depth t)
  rw [outcome_arrive_of_not_unsupported h, reaching_under hdepth, htranslation, hhalt]
  exact outcome_settle_under _ _ _

/-! ### Along a tour -/

/-- What every stop keeps up, tours keep up. -/
theorem holds_tour {P : Translation → Prop}
    (hP : ∀ (stop : Nat × Operation) (t : Translation), P t → P (arrive stop t).translation) :
    ∀ (stops : List (Nat × Operation)) {t : Translation}, P t → P (tour stops t).translation
  | [], _, ht => ht
  | stop :: stops, t, ht => by
    rw [tour]
    exact Walk.holds_andThen (hP stop t ht) fun _ hs => holds_tour hP stops hs

namespace Stable

variable {P : Translation → Prop}

/-- What holds when an operation has been entered holds behind it. -/
theorem arrive_of_reaching (hP : Stable P) {t : Translation} (stop : Nat × Operation)
    (ht : P (t.reaching stop.1)) : P (Translation.arrive stop t).translation := by
  unfold Translation.arrive
  refine Walk.holds_andThen ht fun s hs => ?_
  rcases hcls : GateClass.classify stop.2.gate with _ | cls
  · rcases stop.2.children with _ | ops
    · exact hP.childless hs hcls
    · exact hs
  · exact hP.decompose hs hcls

theorem arrive (hP : Stable P) {t : Translation} (ht : P t) (stop : Nat × Operation) :
    P (Translation.arrive stop t).translation :=
  hP.arrive_of_reaching stop (hP.enter ht stop.2 stop.1)

/-- **A tour keeps a stable property up.** -/
theorem tour (hP : Stable P) (stops : List (Nat × Operation)) {t : Translation} (ht : P t) :
    P (Translation.tour stops t).translation :=
  holds_tour (P := P) (fun stop _ ht => hP.arrive ht stop) stops ht

end Stable

/-- The options stay. -/
theorem stable_config (config : Config) : Stable fun t => t.config = config :=
  Stable.of_write (fun _ h => h) (fun t p h => (config_write t p).trans h) fun _ _ h => h

/-- A longer tour has written more lines behind those of a shorter one. -/
theorem prefix_tour {stops stops' : List (Nat × Operation)} (h : stops <+: stops')
    (t : Translation) : (tour stops t).translation.lines <+: (tour stops' t).translation.lines := by
  obtain ⟨rest, rfl⟩ := h
  rw [tour_append]
  exact Walk.holds_andThen (P := fun u => (tour stops t).translation.lines <+: u.lines)
    List.prefix_rfl fun u hu => (stable_lines _).tour rest hu

theorem config_arrive (stop : Nat × Operation) (t : Translation) :
    (arrive stop t).translation.config = t.config := (stable_config t.config).arrive rfl stop

theorem config_tour (stops : List (Nat × Operation)) (t : Translation) :
    (tour stops t).translation.config = t.config := (stable_config t.config).tour stops rfl

/-- **What stops a tour stops it at one of its stops**, under the same options. -/
theorem exists_halt_arrive {halt : Halt} : ∀ {stops : List (Nat × Operation)} {t : Translation},
    (tour stops t).halt = some halt →
    ∃ stop ∈ stops, ∃ s : Translation, s.config = t.config ∧ (arrive stop s).halt = some halt
  | [], _, h => by cases h
  | stop :: stops, t, h => by
    rw [tour] at h
    rcases hfirst : (arrive stop t).halt with _ | halt'
    · rw [Walk.andThen_of_ok hfirst] at h
      obtain ⟨later, hlater, s, hconfig, hhalt⟩ := exists_halt_arrive h
      rw [config_arrive] at hconfig
      exact ⟨later, List.mem_cons_of_mem stop hlater, s, hconfig, hhalt⟩
    · rw [Walk.andThen_of_halt hfirst] at h
      exact ⟨stop, List.mem_cons_self, t, rfl, h⟩

end Translation

/-- **Two walks are in step**: the same thing stops them, if anything does, and they lead to
translations that are related. -/
structure Walk.InStep (R : Translation → Translation → Prop) (v w : Walk) : Prop where
  halt : v.halt = w.halt
  translation : R v.translation w.translation

namespace Walk.InStep

variable {R : Translation → Translation → Prop} {v w : Walk}

/-- Only the outcomes count. -/
theorem of_outcome {v' w' : Walk} (h : v'.InStep R w') (hv : v.outcome = v'.outcome)
    (hw : w.outcome = w'.outcome) : v.InStep R w := by
  obtain ⟨htv, hhv⟩ := Prod.mk.inj hv
  obtain ⟨htw, hhw⟩ := Prod.mk.inj hw
  exact ⟨by rw [hhv, hhw, h.halt], by rw [htv, htw]; exact h.translation⟩

theorem andThen {next next' : Translation → Walk} (h : v.InStep R w)
    (hnext : ∀ s t, R s t → (next s).InStep R (next' t)) :
    (v.andThen next).InStep R (w.andThen next') := by
  rcases hw : w.halt with _ | halt
  · have hv : v.halt = none := h.halt.trans hw
    have hrest := hnext _ _ h.translation
    rw [andThen_of_ok hv, andThen_of_ok hw]
    exact ⟨hrest.halt, hrest.translation⟩
  · have hv : v.halt = some halt := h.halt.trans hw
    rw [andThen_of_halt hv, andThen_of_halt hw]
    exact h

end Walk.InStep

namespace Translation

/-- **Two tours of the same stops are in step** if they are at every stop. -/
theorem inStep_tour {R : Translation → Translation → Prop} :
    ∀ {stops : List (Nat × Operation)},
    (∀ stop ∈ stops, ∀ s t, R s t → (arrive stop s).InStep R (arrive stop t)) →
    ∀ {s t : Translation}, R s t → (tour stops s).InStep R (tour stops t)
  | [], _, _, _, hst => ⟨rfl, hst⟩
  | stop :: stops, h, s, t, hst => by
    rw [tour, tour]
    refine (h stop List.mem_cons_self s t hst).andThen fun s' t' hst' => ?_
    exact inStep_tour (fun stop' hstop' => h stop' (List.mem_cons_of_mem stop hstop')) hst'

/-! ### The script of a walk -/

theorem render_under (t : Translation) {config : Config} (h : config.dialect = t.config.dialect)
    (numQubits : Nat) : (t.under config).render numQubits = t.render numQubits := by
  have hdialect : (t.under config).config.dialect = t.config.dialect := h
  unfold render
  rw [hdialect]
  rfl

end Translation

/-- The script that a walk has collected, or what stopped it. -/
def Walk.script (w : Walk) (numQubits : Nat) : Except Halt String :=
  match w.halt with
  | some halt => .error halt
  | none => .ok (w.translation.render numQubits)

theorem Walk.script_eq_error_iff {w : Walk} {numQubits : Nat} {halt : Halt} :
    w.script numQubits = .error halt ↔ w.halt = some halt := by
  unfold script
  rcases w.halt with _ | halt' <;> simp

/-- The options of a script matter by its layout only. -/
theorem Walk.script_under {v w : Walk} {config : Config}
    (h : v.outcome = (w.translation.under config, w.halt))
    (hdialect : config.dialect = w.translation.config.dialect) (numQubits : Nat) :
    v.script numQubits = w.script numQubits := by
  obtain ⟨htranslation, hhalt⟩ := Prod.mk.inj h
  unfold script
  rw [htranslation, hhalt, Translation.render_under _ hdialect]

theorem script_translate (path : ExecutionPath) (config : Config) :
    (translate path config).script =
      ((Translation.new config).visitAll path.operations).script path.numQubits := by
  unfold translate Walk.script
  rcases hhalt : ((Translation.new config).visitAll path.operations).halt with _ | halt <;>
    simp only [hhalt]

end CircuitTrace
