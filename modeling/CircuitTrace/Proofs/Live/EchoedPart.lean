import CircuitTrace.Proofs.Live.Echo
import CircuitTrace.Proofs.Translation.Keys

/-! # Echoing a part of what is written

A live translation may echo less than is written in the end: it may fail on an operation that only
its calls make complete, or the contract may be broken. `Live.EchoesSome` says that what it echoes
while it hears reports is a subsequence of the lines of primitives, and that it is ready again
unless the contract was broken.

* `echoesSome_of_error`, `echoesSome_of_class`: an operation that fails echoes nothing and leaves
  the key of the next measurement alone, so an operation with a class may fail at its start.
* `echoesSome_of_silent`: a report about an operation that is written as nothing is not heard at
  all, in a handled body or not.
* `from_of_mem_callsAll`: calls report nothing from above their own depth. -/

namespace CircuitTrace

namespace Operation

/-- A measurement that cannot be written breaks the contract. -/
theorem classPrimitives_measurement_ne_error (op : Operation) (key : Nat) (e : TranslationError) :
    op.classPrimitives key .measurement ≠ .error (.error e) := by
  intro h
  rw [classPrimitives, onlyQubit] at h
  split at h <;> cases h

/-- The operation is written or fails as a whole: it has a class, or is an exponential without
calls. -/
def Settles (op : Operation) : Prop :=
  (GateClass.classify op.gate).isSome = true ∨
    (op.gate = exponentialLabel ∧ op.children = none)

theorem Settles.isLeaf {op : Operation} (h : op.Settles) : op.isLeaf = true := by
  unfold Operation.isLeaf
  rcases h with h | ⟨-, h⟩
  · rw [h, Bool.true_or]
  · rw [h, Option.isNone_none, Bool.or_true]

end Operation

namespace Translation

theorem translation_visit_of_settles {op : Operation} (h : op.Settles) (callerDepth : Nat)
    (t : Translation) :
    (visit callerDepth op t).translation =
      ((t.enter op (callerDepth + 1)).translation.settle
        (op.leafPrimitives t.config t.measurementKey)).translation := by
  rcases hcls : GateClass.classify op.gate with _ | cls
  · rcases h with h | ⟨hgate, hchildren⟩
    · rw [hcls] at h
      cases h
    · have hmarker : op.gate ≠ phaseMarkerLabel := by rw [hgate]; decide
      rw [visit_of_childless hcls hchildren, Walk.andThen_of_ok (halt_enter t op _),
        Operation.leafPrimitives_of_exponential hgate]
      unfold childless
      rw [if_neg hmarker, if_pos hgate]
  · rw [visit_of_classify hcls, Walk.andThen_of_ok (halt_enter t op _),
      Operation.leafPrimitives_of_classify hcls]
    exact translation_decompose _ op cls

end Translation

namespace Live

/-! ### Echoing some of the lines -/

/-- **The live translation echoes some of the lines of primitives**, in their order, while it hears
reports. Unless the contract is broken, it is ready afterwards for operations at a depth, and the
key of the next measurement has moved on as if all of them had been echoed. -/
structure EchoesSome (l : Live) (depth : Nat) (rs : List Report) (ps : List Primitive) : Prop where
  lines : (echoedLines (l.hearAll rs).entries).Sublist (ps.map Primitive.render)
  ready : (l.hearAll rs).breach = none → (l.hearAll rs).live.Ready depth
  config : (l.hearAll rs).breach = none →
    (l.hearAll rs).live.translation.config = l.translation.config
  key : (l.hearAll rs).breach = none →
    (l.hearAll rs).live.translation.measurementKey = keyAfter l.translation.measurementKey ps

variable {l : Live} {depth depth' : Nat} {rs ss : List Report} {ps qs : List Primitive}

theorem Echoes.some (h : l.Echoes depth rs ps) : l.EchoesSome depth rs ps :=
  ⟨by rw [h.lines], fun _ => h.ready, fun _ => h.config, fun _ => h.key⟩

theorem EchoesSome.of_le (h : l.EchoesSome depth rs ps) (hle : depth' ≤ depth) :
    l.EchoesSome depth' rs ps :=
  ⟨h.lines, fun hb => (h.ready hb).of_le hle, h.config, h.key⟩

/-- What is not echoed does not count if it leaves the key alone. -/
theorem EchoesSome.of_nil (h : l.EchoesSome depth rs [])
    (hkey : keyAfter l.translation.measurementKey ps = l.translation.measurementKey) :
    l.EchoesSome depth rs ps :=
  ⟨h.lines.trans (List.nil_sublist _), h.ready, h.config, fun hb => (h.key hb).trans hkey.symm⟩

theorem EchoesSome.of_breach {b : Breach} (h : (l.hearAll rs).breach = some b)
    (hlines : (echoedLines (l.hearAll rs).entries).Sublist (ps.map Primitive.render)) :
    l.EchoesSome depth rs ps := by
  have hne : (l.hearAll rs).breach ≠ none := by rw [h]; exact Option.some_ne_none b
  exact ⟨hlines, fun hb => absurd hb hne, fun hb => absurd hb hne, fun hb => absurd hb hne⟩

theorem EchoesSome.append (h : l.EchoesSome depth rs ps)
    (hs : (l.hearAll rs).breach = none → (l.hearAll rs).live.EchoesSome depth' ss qs) :
    l.EchoesSome depth' (rs ++ ss) (ps ++ qs) := by
  rcases hb : (l.hearAll rs).breach with _ | b
  · have hrest := hs hb
    have happend := hearAll_append hb ss
    refine ⟨?_, ?_, ?_, ?_⟩ <;> rw [happend]
    · simp only [echoedLines_append, List.map_append]
      exact h.lines.append hrest.lines
    · exact hrest.ready
    · exact fun hb' => (hrest.config hb').trans (h.config hb)
    · exact fun hb' => (hrest.key hb').trans (by rw [h.key hb, keyAfter_append])
  · -- nothing is heard behind the break
    have hsame := hearAll_append_of_breach hb ss
    refine .of_breach (by rw [hsame, hb]) ?_
    rw [hsame, List.map_append]
    exact h.lines.trans (List.sublist_append_left _ _)

/-! ### Translating -/

/-- **An operation that fails is not echoed.** It is entered, and that is all. -/
theorem emit_of_error {op : Operation} {halt : Halt} (hop : op.Settles)
    (hps : op.leafPrimitives l.translation.config l.translation.measurementKey = .error halt)
    (depth : Nat) :
    echoedLines (l.emit op depth).entries = [] ∧
      ((l.emit op depth).breach = none → ∃ e, halt = .error e) ∧
      (l.emit op depth).live =
        { l with translation := (l.translation.enter op (depth - 1 + 1)).translation } := by
  have hwalk := Translation.translation_visit_of_settles hop (depth - 1) l.translation
  rw [hps, Translation.settle_error] at hwalk
  have hhalt : (Translation.visit (depth - 1) op l.translation).halt = some halt := by
    have hfollows := Translation.visit_follows op (depth - 1) l.translation
    rw [Operation.leaves_of_isLeaf hop.isLeaf, script_singleton, hps] at hfollows
    exact hfollows
  unfold emit
  simp only [hhalt, hwalk]
  rcases halt with e | b
  · exact ⟨by simp [echoedLines, Entry.line?, warning], fun _ => ⟨e, rfl⟩, rfl⟩
  · exact ⟨echoedLines_map_logged _, fun h => absurd h (by simp), rfl⟩

/-- What is heard of an operation that fails echoes nothing, if its body is passed over. -/
theorem echoesSome_of_error {handled : Option Nat} {r : Report} {op : Operation} {halt : Halt}
    {body : List Report} (hready : l.Ready depth) (hop : op.Settles)
    (hps : op.leafPrimitives l.translation.config l.translation.measurementKey = .error halt)
    (hhear : l.hear r = { l with handledDepth := handled }.emit op depth)
    (hout : { l with handledDepth := handled }.inHandledBody depth = false)
    (hbody : ∀ l' : Live, l'.handledDepth = handled → l'.Ignores body)
    (hkey : ∀ e, halt = .error e →
      keyAfter l.translation.measurementKey ps = l.translation.measurementKey) :
    l.EchoesSome depth (r :: body) ps := by
  obtain ⟨hlines, hhalt, hlive⟩ :=
    emit_of_error (l := { l with handledDepth := handled }) hop hps depth
  rw [← hhear] at hlines hhalt hlive
  rcases hb : (l.hear r).breach with _ | b
  · obtain ⟨e, he⟩ := hhalt hb
    have hignores := hbody (l.hear r).live (by rw [hlive])
    unfold Ignores at hignores
    have hall := hearAll_cons_of_ok hb body
    rw [hignores, hlive] at hall
    refine ⟨?_, ?_, ?_, ?_⟩ <;> rw [hall]
    · simp [hlines]
    · exact fun _ => ⟨hready.written, hready.room, hout⟩
    · exact fun _ => rfl
    · exact fun _ => (hkey e he).symm
  · have hall := hearAll_cons_of_breach hb body
    refine .of_breach (by rw [hall, hb]) ?_
    rw [hall, hlines]
    exact List.nil_sublist _

/-- **An operation with a class echoes the lines of primitives at its start**, or none of them, if it
is written as those primitives or not at all. What is reported from its body does not matter. -/
theorem echoesSome_of_class {op : Operation} {cls : GateClass} {body : List Report}
    (hready : l.Ready depth) (hcls : GateClass.classify op.gate = some cls)
    (hok : ∀ qs, op.classPrimitives l.translation.measurementKey cls = .ok qs → qs = ps)
    (hkey : cls ≠ .measurement →
      keyAfter l.translation.measurementKey ps = l.translation.measurementKey)
    (hbody : ∀ l' : Live, l'.handledDepth = some depth → l'.Ignores body) :
    l.EchoesSome depth (.started op depth :: body) ps := by
  rcases hps : op.classPrimitives l.translation.measurementKey cls with halt | qs
  · have hop : op.Settles := Or.inl (by rw [hcls]; rfl)
    have hleaf := Operation.leafPrimitives_of_classify hcls l.translation.config
      l.translation.measurementKey
    refine echoesSome_of_error hready hop (hleaf.trans hps)
      (hear_started_of_class hready.outside hcls) (decide_eq_false (Nat.lt_irrefl depth)) hbody ?_
    -- a measurement that fails would have broken the contract
    rintro e rfl
    refine hkey ?_
    rintro rfl
    exact Operation.classPrimitives_measurement_ne_error op _ e hps
  · have hqs := hok qs hps
    rw [hqs] at hps
    exact (echoes_of_class hready hcls hps hbody).some

theorem echoesSome_ended_of_error {op : Operation} {halt : Halt} (hready : l.Ready depth)
    (hgate : op.gate = exponentialLabel) (hchildren : op.children = none)
    (hps : op.exponential = .error halt) : l.EchoesSome depth [.ended op depth] [] := by
  have hleaf := Operation.leafPrimitives_of_exponential hgate l.translation.config
    l.translation.measurementKey
  have hhear : l.hear (.ended op depth) = l.emit op depth := by
    simp [hear, hgate, Operation.hasChildren, hchildren, hready.outside]
  exact echoesSome_of_error hready (Or.inr ⟨hgate, hchildren⟩) (hleaf.trans hps) hhear
    hready.outside (fun l' _ => ignores_nil l') fun _ _ => rfl

end Live

/-! ### Silent reports -/

namespace Report

/-- **A report is silent** if a live translation that hears it has nothing to write. -/
def Silent : Report → Prop
  | .logged _ => True
  | .started op _ => ∀ cls key ps, GateClass.classify op.gate = some cls →
      op.classPrimitives key cls = .ok ps → ps = []
  | .ended op _ => ∀ ps, op.gate = exponentialLabel → op.children = none →
      op.exponential = .ok ps → ps = []

/-- The report is about an operation at a depth or below it. -/
def From (depth : Nat) : Report → Prop
  | .logged _ => True
  | .started _ d => depth ≤ d
  | .ended _ d => depth ≤ d

theorem From.of_succ {depth : Nat} {r : Report} (h : r.From (depth + 1)) : r.From depth := by
  rcases r with record | ⟨op, d⟩ | ⟨op, d⟩
  · trivial
  · exact Nat.le_of_succ_le h
  · exact Nat.le_of_succ_le h

end Report

namespace CallTree

open Tracer

mutual

theorem from_of_mem_calls {caller : Option Operation} {a : Allocator} {depth : Nat} {r : Report} :
    ∀ {c : CallTree}, r ∈ c.calls depth caller a → r.From depth
  | .call source inner, h => by
    rw [calls, List.mem_append, List.mem_append] at h
    rcases h with (h | h) | h
    · rcases hentry : (opened caller a source).1 with _ | op <;> rw [hentry] at h
      · cases h
      · rw [List.mem_singleton.mp h]
        exact Nat.le_refl depth
    · exact (from_of_mem_callsAll h).of_succ
    · rcases hentry : (results (opened caller a source).1 (opened caller a source).2 inner).1
        with _ | op <;> rw [hentry] at h
      · cases h
      · rw [List.mem_singleton.mp h]
        exact Nat.le_refl depth

/-- Everything that is reported of calls lies at their depth or below it. -/
theorem from_of_mem_callsAll {caller : Option Operation} {a : Allocator} {depth : Nat}
    {r : Report} : ∀ {cs : List CallTree}, r ∈ callsAll depth caller a cs → r.From depth
  | [], h => by cases h
  | c :: cs, h => by
    rw [callsAll, List.mem_append] at h
    exact h.elim from_of_mem_calls from_of_mem_callsAll

end

end CallTree

namespace Live

variable {l : Live} {depth : Nat} {rs : List Report}

theorem echoesSome_of_silent {r : Report} (hready : l.Ready depth) (hfrom : r.From depth)
    (h : r.Silent) : l.EchoesSome depth [r] [] := by
  rcases r with record | ⟨op, d⟩ | ⟨op, d⟩
  · exact ⟨List.Sublist.refl [], fun _ => hready, fun _ => rfl, fun _ => rfl⟩
  · rcases hin : l.inHandledBody d with _ | _
    · -- the body of what starts here is handled from depth `d` on, which is not above `depth`
      have hready' : l.Ready d := ⟨hready.written, hready.room, hin⟩
      rcases hcls : GateClass.classify op.gate with _ | cls
      · exact (echoes_started hready' hcls depth).some
      · refine (echoesSome_of_class hready' hcls ?_ (fun _ => rfl) ?_).of_le hfrom
        · exact fun qs hqs => h cls _ qs hcls hqs
        · exact fun l' _ => ignores_nil l'
    · exact ((ignores_started hin op).echoes hready).some
  · by_cases hskip : op.gate ≠ exponentialLabel ∨ op.hasChildren = true ∨ l.inHandledBody d = true
    · exact ((ignores_ended hskip).echoes hready).some
    · obtain ⟨hgate, hchildren, hin⟩ : op.gate = exponentialLabel ∧ op.children = none ∧
          l.inHandledBody d = false := by
        simpa [Operation.hasChildren] using hskip
      have hready' : l.Ready d := ⟨hready.written, hready.room, hin⟩
      rcases hps : op.exponential with halt | ps
      · exact (echoesSome_ended_of_error hready' hgate hchildren hps).of_le hfrom
      · obtain rfl := h ps hgate hchildren hps
        exact (echoes_ended hready' hgate hchildren hps).some.of_le hfrom

theorem echoesSome_of_forall_silent (hready : l.Ready depth) (hfrom : ∀ r ∈ rs, r.From depth)
    (h : ∀ r ∈ rs, r.Silent) : l.EchoesSome depth rs [] := by
  induction rs generalizing l with
  | nil => exact ((ignores_nil l).echoes hready).some
  | cons r rs ih =>
    have hfirst := echoesSome_of_silent hready (hfrom r List.mem_cons_self)
      (h r List.mem_cons_self)
    have hrest : (l.hearAll [r]).breach = none → (l.hearAll [r]).live.EchoesSome depth rs [] :=
      fun hb => ih (hfirst.ready hb) (fun r' hr' => hfrom r' (List.mem_cons_of_mem r hr'))
        fun r' hr' => h r' (List.mem_cons_of_mem r hr')
    exact hfirst.append hrest

end Live

end CircuitTrace
