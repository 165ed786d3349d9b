import CircuitTrace.Proofs.Translation.Keys
import CircuitTrace.Proofs.Translation.Strictness
import CircuitTrace.Proofs.Translation.Symbols

/-! # The labels that a walk notes

A walk notes the label of every unsupported operation that it comes to, and no other text. It comes
to the operations that it reaches up to the first one that fails, and that one
(`gatesErrored_tour`); whether an operation fails depends on the operation and on the options alone
(`Operation.fails`, `isSome_halt_arrive`), not on what the translation has collected. So a walk that
comes to its end has noted the labels of the unsupported operations that it reaches, each once and
in the order of their first visit (`gatesErrored_visitAll`).

Of the lines only comments of unhandled operations carry a label, and their labels have been noted
before (`labelsNoted_visitAll`). -/

namespace CircuitTrace

/-- The elements of a list up to the first one that passes a test, and that one. -/
def throughFirst {α : Type} (test : α → Bool) : List α → List α
  | [] => []
  | a :: as => a :: if test a then [] else throughFirst test as

/-- If no element passes the test these are all of them. -/
theorem throughFirst_eq_self {α : Type} {test : α → Bool} : ∀ {as : List α},
    (∀ a ∈ as, test a = false) → throughFirst test as = as
  | [], _ => rfl
  | a :: as, h => by
    rw [throughFirst, h a List.mem_cons_self,
      throughFirst_eq_self fun b hb => h b (List.mem_cons_of_mem a hb)]
    rfl

namespace Operation

/-! ### Stops without their depths -/

mutual

/-- **The stops of a walk are the operations that it reaches.** -/
theorem map_snd_stops : ∀ (op : Operation) (depth : Nat),
    (op.stops depth).map Prod.snd = op.reached
  | ⟨gate, args, children, controlled, adjoint, measurement, controls, targets⟩, depth => by
    rw [stops, reached]
    rcases GateClass.classify gate with _ | cls
    · exact congrArg (_ :: ·) (map_snd_stopsCalls children (depth + 1))
    · rfl

theorem map_snd_stopsCalls : ∀ (children : Option (List Operation)) (depth : Nat),
    (stopsCalls depth children).map Prod.snd = reachedCalls children
  | some ops, depth => map_snd_stopsAll ops depth
  | none, _ => rfl

theorem map_snd_stopsAll : ∀ (ops : List Operation) (depth : Nat),
    (stopsAll depth ops).map Prod.snd = reachedAll ops
  | [], _ => rfl
  | op :: ops, depth => by
    rw [stopsAll, reachedAll, List.map_append, map_snd_stops op, map_snd_stopsAll ops]

end

/-- **The labels of the unsupported operations** in a list, in order. -/
def unsupportedLabels (ops : List Operation) : List String :=
  (ops.filter Unsupported).map gate

theorem unsupportedLabels_cons_of_unsupported {op : Operation} (h : op.Unsupported)
    (ops : List Operation) : unsupportedLabels (op :: ops) = op.gate :: unsupportedLabels ops := by
  unfold unsupportedLabels
  rw [List.filter_cons_of_pos (by simpa using h), List.map_cons]

theorem unsupportedLabels_cons_of_not_unsupported {op : Operation} (h : ¬ op.Unsupported)
    (ops : List Operation) : unsupportedLabels (op :: ops) = unsupportedLabels ops := by
  unfold unsupportedLabels
  rw [List.filter_cons_of_neg (by simpa using h)]

theorem unsupportedLabels_append (ops ops' : List Operation) :
    unsupportedLabels (ops ++ ops') = unsupportedLabels ops ++ unsupportedLabels ops' := by
  unfold unsupportedLabels
  rw [List.filter_append, List.map_append]

/-- What is settled at a stop is no comment of an unhandled operation. -/
theorem isUnhandled_stopPrimitives {op : Operation} {key : Nat} {ps : List Primitive}
    (h : op.stopPrimitives key = .ok ps) : ∀ p ∈ ps, p.isUnhandled = false := by
  unfold stopPrimitives at h
  split at h
  · exact isUnhandled_classPrimitives h
  · cases h
    exact nofun
  · split_ifs at h
    · cases h
      exact nofun
    · exact isUnhandled_exponential h

/-! ### Operations that fail -/

/-- **A walk that comes to the operation is stopped by it**: the operation is unsupported and the
options are strict, or its primitives cannot be told. -/
def fails (config : Config) (op : Operation) : Bool :=
  if op.Unsupported then config.strict else !(op.stopPrimitives 0).isOk

/-- The key does not decide whether there are primitives. -/
theorem isOk_stopPrimitives (key : Nat) (op : Operation) :
    (op.stopPrimitives key).isOk = (op.stopPrimitives 0).isOk := by
  have hlater := stopPrimitives_later key 0 op
  rw [Nat.add_zero] at hlater
  rw [hlater]
  rcases op.stopPrimitives 0 with halt | ps <;> rfl

end Operation

namespace Translation

/-! ### Noted labels -/

/-- **A walk is stopped by the operations that fail**, whatever it has collected. -/
theorem isSome_halt_arrive (depth : Nat) (op : Operation) (t : Translation) :
    (arrive (depth, op) t).halt.isSome = op.fails t.config := by
  unfold Operation.fails
  by_cases hop : op.Unsupported
  · rw [if_pos hop]
    rcases hstrict : t.config.strict with _ | _
    · rw [(arrive_lenient hop hstrict depth).1]
      rfl
    · rw [halt_arrive_strict hop hstrict depth]
      rfl
  · obtain ⟨-, hhalt⟩ := Prod.mk.inj (outcome_arrive_of_not_unsupported hop depth t)
    rw [if_neg hop, hhalt, ← Operation.isOk_stopPrimitives t.measurementKey]
    rcases op.stopPrimitives t.measurementKey with halt | ps <;> rfl

/-- At a stop the label of an unsupported operation is noted, and no other one. -/
theorem gatesErrored_arrive_eq (depth : Nat) (op : Operation) (t : Translation) :
    (arrive (depth, op) t).translation.gatesErrored =
      (Operation.unsupportedLabels [op]).foldl noteOnce t.gatesErrored := by
  by_cases hop : op.Unsupported
  · rw [Operation.unsupportedLabels_cons_of_unsupported hop,
      (Prod.mk.inj (outcome_arrive_of_unsupported hop depth t)).1, unhandled_eq]
    split_ifs
    · rfl
    · exact gatesErrored_write _ _
    · rfl
  · rw [Operation.unsupportedLabels_cons_of_not_unsupported hop, gatesErrored_arrive hop]
    rfl

/-- **A tour notes the labels of the unsupported operations that it comes to**, be it stopped or
not. -/
theorem gatesErrored_tour : ∀ (stops : List (Nat × Operation)) (t : Translation),
    (tour stops t).translation.gatesErrored =
      (Operation.unsupportedLabels (throughFirst (Operation.fails t.config)
        (stops.map Prod.snd))).foldl noteOnce t.gatesErrored
  | [], _ => rfl
  | (depth, op) :: stops, t => by
    have hfails := isSome_halt_arrive depth op t
    have hnoted := gatesErrored_arrive_eq depth op t
    rw [tour, List.map_cons, throughFirst, ← List.singleton_append,
      Operation.unsupportedLabels_append, List.foldl_append, ← hnoted, ← hfails]
    rcases hlast : (arrive (depth, op) t).halt with _ | halt
    · rw [Walk.andThen_of_ok hlast]
      have hrest := gatesErrored_tour stops (arrive (depth, op) t).translation
      rw [config_arrive] at hrest
      exact hrest
    · rw [Walk.andThen_of_halt hlast]
      rfl

/-- None of the stops fails of a tour that comes to its end. -/
theorem fails_of_mem_stops {stops : List (Nat × Operation)} {t : Translation}
    (h : (tour stops t).halt = none) {stop : Nat × Operation} (hstop : stop ∈ stops) :
    stop.2.fails t.config = false := by
  obtain ⟨before, after, rfl⟩ := List.append_of_mem hstop
  rw [tour_append] at h
  have harrive := Walk.halt_of_andThen (Walk.halt_of_andThen h).2
  rw [← config_tour before t, ← isSome_halt_arrive stop.1 stop.2, harrive.1]
  rfl

/-- **A walk that comes to its end has noted the labels of the unsupported operations that it
reaches**, each once and in the order of their first visit. -/
theorem gatesErrored_visitAll {config : Config} {ops : List Operation}
    (h : ((new config).visitAll ops).halt = none) :
    ((new config).visitAll ops).translation.gatesErrored =
      firstNoted (Operation.unsupportedLabels (Operation.reachedAll ops)) := by
  rw [visitAll_eq_tour] at h ⊢
  have hfails : ∀ op ∈ Operation.reachedAll ops, op.fails (new config).config = false := by
    rw [← Operation.map_snd_stopsAll ops 1, List.forall_mem_map]
    exact fun stop hstop => fails_of_mem_stops h hstop
  rw [gatesErrored_tour, Operation.map_snd_stopsAll, throughFirst_eq_self hfails]
  rfl

/-! ### Labels in lines -/

/-- **The labels of comments have been noted.** -/
def LabelsNoted (t : Translation) : Prop :=
  ∀ p ∈ t.primitives, ∀ label qubits, p.instruction = .unhandled label qubits →
    label ∈ t.gatesErrored

theorem LabelsNoted.settle {t : Translation} (ht : t.LabelsNoted) {op : Operation} {key : Nat} :
    (t.settle (op.stopPrimitives key)).translation.LabelsNoted := by
  intro p hp label qubits hinstruction
  rw [gatesErrored_settle]
  rcases hprimitives : op.stopPrimitives key with halt | ps <;> rw [hprimitives] at hp
  · exact ht p hp label qubits hinstruction
  · rw [settle_ok, primitives_writeAll, List.mem_append] at hp
    rcases hp with hp | hp
    · exact ht p hp label qubits hinstruction
    · have hhandled := Operation.isUnhandled_stopPrimitives hprimitives p hp
      rw [Primitive.isUnhandled, hinstruction] at hhandled
      cases hhandled

theorem LabelsNoted.noting {t : Translation} (ht : t.LabelsNoted) (label : String) :
    (t.noting label).LabelsNoted := by
  intro p hp label' qubits hinstruction
  exact mem_noteOnce.mpr (Or.inl (ht p hp label' qubits hinstruction))

theorem LabelsNoted.unhandled {t : Translation} (ht : t.LabelsNoted) (op : Operation) :
    (t.unhandled op).translation.LabelsNoted := by
  have hnoted := ht.noting op.gate
  rw [unhandled_eq]
  split_ifs
  · exact hnoted
  · intro p hp label qubits hinstruction
    rw [gatesErrored_write]
    rw [primitives_write, List.mem_append, List.mem_singleton] at hp
    rcases hp with hp | rfl
    · exact hnoted p hp label qubits hinstruction
    · cases hinstruction
      exact mem_noteOnce.mpr (Or.inr rfl)
  · exact hnoted

theorem LabelsNoted.arrive {t : Translation} (ht : t.LabelsNoted) (stop : Nat × Operation) :
    (arrive stop t).translation.LabelsNoted := by
  obtain ⟨depth, op⟩ := stop
  have hreaching : (t.reaching depth).LabelsNoted := ht
  by_cases hop : op.Unsupported
  · rw [(Prod.mk.inj (outcome_arrive_of_unsupported hop depth t)).1]
    exact hreaching.unhandled op
  · rw [(Prod.mk.inj (outcome_arrive_of_not_unsupported hop depth t)).1]
    exact hreaching.settle

theorem LabelsNoted.tour {t : Translation} (ht : t.LabelsNoted) (stops : List (Nat × Operation)) :
    (tour stops t).translation.LabelsNoted :=
  holds_tour (fun stop _ ht => ht.arrive stop) stops ht

/-- **The labels of the comments in a script have been noted.** -/
theorem labelsNoted_visitAll (config : Config) (ops : List Operation) :
    ((new config).visitAll ops).translation.LabelsNoted := by
  have hnew : (new config).LabelsNoted := nofun
  rw [visitAll_eq_tour]
  exact hnew.tour _

end Translation

end CircuitTrace
