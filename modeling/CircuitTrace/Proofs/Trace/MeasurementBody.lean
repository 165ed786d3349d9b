import CircuitTrace.Proofs.Register.Allocator
import CircuitTrace.Proofs.Trace.Orderly
import Mathlib.Data.List.Perm.Basic

/-! # The body of a measurement

A call that starts directly under a measurement is absent, and the metadata are not even looked at.
What it calls in turn starts under an absent entry, however, and is captured like anything else: it
will be thrown away in the end, but its qubits have been mentioned by then, and its measurements are
counted.

To say what that changes, the run over a trace is compared with the run over the trace without the
bodies of its measurements (`CallTree.prunedTrace`). The metadata of the operations that start are
the same but for those inside measurements (`begunTrace_perm`), and they alone determine the
allocator (`replay_forest_registers`). The entries see of the allocator no more than the counts of
the measurements (`result_pruned`). So the bodies leave no mark exactly if nothing inside them is a
measurement or mentions a qubit that is not mentioned elsewhere (`executionPath_pruned_eq_iff`).
`exists_executionPath_pruned_ne` is a trace that is marked. -/

namespace CircuitTrace

/-! ### Registering -/

namespace Metadata

/-- The qubit that a measurement counts for, if it is one. -/
def measuredQubits (m : Metadata) : List Nat := if m.isMeasurement then m.targets.take 1 else []

theorem classicalCount_registered (m : Metadata) (a : Allocator) (q : Nat) :
    (m.registered a).classicalCount q = a.classicalCount q + m.measuredQubits.count q := by
  unfold Allocator.classicalCount registered measuredQubits
  split_ifs with hm
  · rw [List.count_append, Allocator.measured_mentionAll]
  · rw [Allocator.measured_mentionAll]
    rfl

/-- An operation is described in the same way if the same measurements have been counted. -/
theorem described_congr {a a' : Allocator} (h : ∀ q, a.classicalCount q = a'.classicalCount q)
    (m : Metadata) : m.described a = m.described a' := by
  unfold described
  simp only [h]

/-- The allocator after operations one after the other. -/
def registeredAll (ms : List Metadata) (a : Allocator) : Allocator :=
  ms.foldl (fun a m => m.registered a) a

theorem registeredAll_append (ms ms' : List Metadata) (a : Allocator) :
    registeredAll (ms ++ ms') a = registeredAll ms' (registeredAll ms a) := List.foldl_append

theorem classicalCount_registeredAll {q : Nat} : ∀ {ms : List Metadata} {a : Allocator},
    (registeredAll ms a).classicalCount q =
      a.classicalCount q + (ms.flatMap measuredQubits).count q
  | [], a => by simp [registeredAll]
  | m :: ms, a => by
    have hstep : registeredAll (m :: ms) a = registeredAll ms (m.registered a) := rfl
    rw [hstep, classicalCount_registeredAll, classicalCount_registered, List.flatMap_cons,
      List.count_append, Nat.add_assoc]

theorem mem_qubits_registeredAll {q : Nat} : ∀ {ms : List Metadata} {a : Allocator},
    q ∈ (registeredAll ms a).qubits ↔ q ∈ a.qubits ∨ ∃ m ∈ ms, q ∈ m.controls ++ m.targets
  | [], a => by simp [registeredAll]
  | m :: ms, a => by
    have hstep : registeredAll (m :: ms) a = registeredAll ms (m.registered a) := rfl
    rw [hstep, mem_qubits_registeredAll, qubits_registered, Allocator.mem_qubits_mentionAll,
      or_assoc]
    simp only [List.mem_cons, exists_eq_or_imp]

theorem ascending_registeredAll : ∀ {ms : List Metadata} {a : Allocator},
    a.qubits.Pairwise (· < ·) → (registeredAll ms a).qubits.Pairwise (· < ·)
  | [], _, h => h
  | m :: ms, a, h => by
    have hone : (m.registered a).qubits.Pairwise (· < ·) := by
      rw [qubits_registered]
      exact Allocator.ascending_mentionAll h
    have hstep : registeredAll (m :: ms) a = registeredAll ms (m.registered a) := rfl
    rw [hstep]
    exact ascending_registeredAll hone

/-- A measurement that names a qubit counts for one that it mentions. -/
theorem exists_measuredQubit {m : Metadata} (hm : m.isMeasurement = true)
    (h : m.lacksTarget = false) : ∃ q ∈ m.controls ++ m.targets, q ∈ m.measuredQubits := by
  obtain ⟨q, qs, htargets⟩ : ∃ q qs, m.targets = q :: qs := by
    refine List.exists_cons_of_ne_nil fun hnil => ?_
    simp [lacksTarget, hm, hnil] at h
  exact ⟨q, by simp [htargets], by simp [measuredQubits, hm, htargets]⟩

/-- Operations that are no measurements do not change a count. -/
theorem count_measuredQubits_eq {ms ms' hs : List Metadata} (hperm : ms.Perm (ms' ++ hs))
    (h : ∀ m ∈ hs, m.isMeasurement = false) (q : Nat) :
    (ms.flatMap measuredQubits).count q = (ms'.flatMap measuredQubits).count q := by
  have hnil : hs.flatMap measuredQubits = [] := by
    rw [List.flatMap_eq_nil_iff]
    intro m hm
    unfold measuredQubits
    rw [h m hm]
    rfl
  have hcount := (hperm.flatMap_right measuredQubits).count_eq q
  rw [List.flatMap_append, hnil, List.append_nil] at hcount
  exact hcount

/-- **Further operations leave the declarations as they are** exactly if none of them is a
measurement and the others mention their qubits as well. -/
theorem declarations_registeredAll_eq_iff {ms ms' hs : List Metadata}
    (hperm : ms.Perm (ms' ++ hs)) (htarget : ∀ m ∈ hs, m.lacksTarget = false) :
    (registeredAll ms' .empty).declarations = (registeredAll ms .empty).declarations ↔
      ∀ m ∈ hs, m.isMeasurement = false ∧ ∀ q ∈ m.controls ++ m.targets,
        ∃ m' ∈ ms', q ∈ m'.controls ++ m'.targets := by
  have hmentioned : ∀ (ms : List Metadata) (q : Nat),
      q ∈ (registeredAll ms .empty).qubits ↔ ∃ m ∈ ms, q ∈ m.controls ++ m.targets := by
    intro ms q
    rw [mem_qubits_registeredAll]
    exact or_iff_right List.not_mem_nil
  have hcount : ∀ (ms : List Metadata) (q : Nat),
      (registeredAll ms .empty).classicalCount q = (ms.flatMap measuredQubits).count q := by
    intro ms q
    rw [classicalCount_registeredAll]
    exact Nat.zero_add _
  rw [Allocator.declarations_eq_iff]
  constructor
  · rintro ⟨hqubits, hcounts⟩ m hm
    have hdeclared : ∀ q ∈ m.controls ++ m.targets, q ∈ (registeredAll ms' .empty).qubits := by
      intro q hq
      rw [hqubits]
      exact (hmentioned ms q).mpr ⟨m, hperm.mem_iff.mpr (List.mem_append_right _ hm), hq⟩
    refine ⟨?_, fun q hq => (hmentioned _ q).mp (hdeclared q hq)⟩
    by_contra hmeasures
    rw [Bool.not_eq_false] at hmeasures
    obtain ⟨q, hq, hmeasured⟩ := exists_measuredQubit hmeasures (htarget m hm)
    have hsame := hcounts q (hdeclared q hq)
    have hsplit := (hperm.flatMap_right measuredQubits).count_eq q
    have hpos : 0 < (hs.flatMap measuredQubits).count q :=
      List.count_pos_iff.mpr (List.mem_flatMap.mpr ⟨m, hm, hmeasured⟩)
    rw [hcount, hcount] at hsame
    rw [List.flatMap_append, List.count_append] at hsplit
    omega
  · intro h
    refine ⟨?_, fun q _ => ?_⟩
    · refine eq_of_ascending (ascending_registeredAll List.Pairwise.nil)
        (ascending_registeredAll List.Pairwise.nil) fun q => ?_
      rw [hmentioned, hmentioned]
      constructor
      · rintro ⟨m, hm, hq⟩
        exact ⟨m, hperm.mem_iff.mpr (List.mem_append_left _ hm), hq⟩
      · rintro ⟨m, hm, hq⟩
        rcases List.mem_append.mp (hperm.mem_iff.mp hm) with hm | hm
        · exact ⟨m, hm, hq⟩
        · exact (h m hm).2 q hq
    · rw [hcount, hcount]
      exact (count_measuredQubits_eq hperm (fun m hm => (h m hm).1) q).symm

end Metadata

/-! ### What starts -/

namespace Tracer

/-- The metadata of an operation that starts, unless it is absent; `under` says whether the caller
is a measurement. -/
def begun (under : Bool) : Source → Option Metadata
  | .ok (some m) => if under || m.lacksTarget then none else some m
  | .ok none => none
  | .error _ => none

/-- The operation that starts is a measurement. -/
def beginsMeasurement (under : Bool) (source : Source) : Bool :=
  (begun under source).any Metadata.isMeasurement

theorem opened_of_begun (caller : Option Operation) (a : Allocator) (source : Source) :
    opened caller a source =
      match begun (measures caller) source with
      | some m => (some (m.described a), m.registered a)
      | none => (none, a) := by
  rcases source with reason | _ | m
  · rfl
  · rfl
  · unfold opened begun
    simp only
    split_ifs <;> rfl

theorem measures_opened (caller : Option Operation) (a : Allocator) (source : Source) :
    measures (opened caller a source).1 = beginsMeasurement (measures caller) source := by
  unfold beginsMeasurement
  rw [opened_of_begun]
  rcases begun (measures caller) source with _ | m
  · rfl
  · rfl

theorem registers_opened (caller : Option Operation) (a : Allocator) (source : Source) :
    (opened caller a source).2 =
      Metadata.registeredAll (begun (measures caller) source).toList a := by
  rw [opened_of_begun]
  rcases begun (measures caller) source with _ | m
  · rfl
  · rfl

/-- Taking in calls does not make a caller a measurement. -/
theorem measures_attach (caller call : Option Operation) :
    measures (attach caller call) = measures caller := by
  rcases caller with _ | op
  · rfl
  · obtain ⟨op', hattach, hop'⟩ := exists_attach op call
    rw [hattach]
    rcases hop' with rfl | ⟨c, -, rfl⟩
    · rfl
    · rfl

end Tracer

namespace CallTree

open Tracer

mutual

/-- **The metadata of the operations that start in a tree**, in order. -/
def begunIn (under : Bool) : CallTree → List Metadata
  | call source inner =>
    (begun under source).toList ++ begunInAll (beginsMeasurement under source) inner

/-- The metadata of the operations that start in trees under one caller. -/
def begunInAll (under : Bool) : List CallTree → List Metadata
  | [] => []
  | c :: cs => c.begunIn under ++ begunInAll under cs

end

mutual

/-- **The tree without what is called inside measurements.** -/
def pruned (under : Bool) : CallTree → CallTree
  | call source inner =>
    call source (if beginsMeasurement under source then [] else prunedAll false inner)

/-- Trees under one caller without what is called inside measurements. -/
def prunedAll (under : Bool) : List CallTree → List CallTree
  | [] => []
  | c :: cs => c.pruned under :: prunedAll under cs

end

mutual

/-- **The metadata of the operations that start inside measurements.** -/
def hidden (under : Bool) : CallTree → List Metadata
  | call source inner =>
    if beginsMeasurement under source then begunInAll true inner else hiddenAll false inner

/-- The metadata of the operations that start inside measurements, in trees under one caller. -/
def hiddenAll (under : Bool) : List CallTree → List Metadata
  | [] => []
  | c :: cs => c.hidden under ++ hiddenAll under cs

end

theorem begunInAll_append (under : Bool) (cs ds : List CallTree) :
    begunInAll under (cs ++ ds) = begunInAll under cs ++ begunInAll under ds := by
  induction cs with
  | nil => rfl
  | cons c cs ih => rw [List.cons_append, begunInAll, begunInAll, ih, List.append_assoc]

theorem prunedAll_append (under : Bool) (cs ds : List CallTree) :
    prunedAll under (cs ++ ds) = prunedAll under cs ++ prunedAll under ds := by
  induction cs with
  | nil => rfl
  | cons c cs ih => rw [List.cons_append, prunedAll, prunedAll, ih, List.cons_append]

theorem hiddenAll_append (under : Bool) (cs ds : List CallTree) :
    hiddenAll under (cs ++ ds) = hiddenAll under cs ++ hiddenAll under ds := by
  induction cs with
  | nil => rfl
  | cons c cs ih => rw [List.cons_append, hiddenAll, hiddenAll, ih, List.append_assoc]

mutual

/-- A measurement that starts names a qubit. -/
theorem lacksTarget_of_mem_begunIn {m : Metadata} : ∀ {under : Bool} {c : CallTree},
    m ∈ c.begunIn under → m.lacksTarget = false
  | under, call source inner, h => by
    rw [begunIn] at h
    rcases List.mem_append.mp h with h | h
    · rcases source with reason | _ | m'
      · cases h
      · cases h
      · simp only [begun] at h
        split_ifs at h with hopen
        · cases h
        · rw [List.mem_singleton.mp h]
          simp only [Bool.or_eq_true, not_or, Bool.not_eq_true] at hopen
          exact hopen.2
    · exact lacksTarget_of_mem_begunInAll h

theorem lacksTarget_of_mem_begunInAll {m : Metadata} : ∀ {under : Bool} {cs : List CallTree},
    m ∈ begunInAll under cs → m.lacksTarget = false
  | under, c :: cs, h => by
    rw [begunInAll] at h
    rcases List.mem_append.mp h with h | h
    · exact lacksTarget_of_mem_begunIn h
    · exact lacksTarget_of_mem_begunInAll h

end

/-- Two lists that are split in two parts, one behind the other. -/
theorem perm_append_append {α : Type} {as bs cs as' bs' cs' : List α} (h : as.Perm (bs ++ cs))
    (h' : as'.Perm (bs' ++ cs')) : (as ++ as').Perm ((bs ++ bs') ++ (cs ++ cs')) := by
  have hboth := h.append h'
  rw [List.append_assoc] at hboth ⊢
  refine hboth.trans (List.Perm.append_left bs ?_)
  exact List.perm_append_comm_assoc _ _ _

mutual

/-- **What starts in a tree starts in the pruned one or inside measurements.** -/
theorem begunIn_perm : ∀ (under : Bool) (c : CallTree),
    (c.begunIn under).Perm ((c.pruned under).begunIn under ++ c.hidden under)
  | under, call source inner => by
    rw [begunIn, pruned, begunIn, hidden, List.append_assoc]
    refine List.Perm.append_left _ ?_
    cases hm : beginsMeasurement under source with
    | true => exact List.Perm.refl _
    | false => exact begunInAll_perm false inner

theorem begunInAll_perm : ∀ (under : Bool) (cs : List CallTree),
    (begunInAll under cs).Perm (begunInAll under (prunedAll under cs) ++ hiddenAll under cs)
  | _, [] => List.Perm.refl _
  | under, c :: cs => by
    rw [begunInAll, prunedAll, begunInAll, hiddenAll]
    exact perm_append_append (begunIn_perm under c) (begunInAll_perm under cs)

end

/-! ### Results and their allocator -/

theorem measures_results : ∀ (cs : List CallTree) (caller : Option Operation) (a : Allocator),
    measures (results caller a cs).1 = measures caller
  | [], _, _ => rfl
  | c :: cs, caller, a => by
    rw [results, measures_results cs, measures_attach]

mutual

/-- **The operations that start determine the allocator.** -/
theorem registers_result : ∀ (c : CallTree) (caller : Option Operation) (a : Allocator),
    (c.result caller a).2 = Metadata.registeredAll (c.begunIn (measures caller)) a
  | call source inner, caller, a => by
    rw [result, begunIn, Metadata.registeredAll_append, ← registers_opened, registers_results,
      measures_opened]

theorem registers_results : ∀ (cs : List CallTree) (caller : Option Operation) (a : Allocator),
    (results caller a cs).2 = Metadata.registeredAll (begunInAll (measures caller) cs) a
  | [], _, _ => rfl
  | c :: cs, caller, a => by
    rw [results, begunInAll, Metadata.registeredAll_append, ← registers_result c,
      registers_results cs, measures_attach]

end

/-- A measurement takes nothing in. -/
theorem results_of_measures {caller : Option Operation} (h : measures caller = true) :
    ∀ (cs : List CallTree) (a : Allocator), (results caller a cs).1 = caller
  | [], _ => rfl
  | .call source inner :: cs, a => by
    have hcall : ((call source inner).result caller a).1 = none := by
      rw [result, opened_of_measures h]
      exact results_none inner a
    have hattach : attach caller none = caller := by cases caller <;> rfl
    rw [results, hcall, hattach]
    exact results_of_measures h cs _

mutual

/-- **A tree and the pruned one have the same result** if they start with the same counts and no
measurement starts inside measurements. -/
theorem result_pruned {caller : Option Operation} {a a' : Allocator}
    (hcounts : ∀ q, a.classicalCount q = a'.classicalCount q) : ∀ {c : CallTree},
    (∀ m ∈ c.hidden (measures caller), m.isMeasurement = false) →
      (c.result caller a).1 = ((c.pruned (measures caller)).result caller a').1
  | call source inner, hhidden => by
    have hentry : (opened caller a source).1 = (opened caller a' source).1 := by
      rw [opened_of_begun, opened_of_begun]
      rcases begun (measures caller) source with _ | m
      · rfl
      · exact congrArg some (Metadata.described_congr hcounts m)
    have hopened : ∀ q, (opened caller a source).2.classicalCount q =
        (opened caller a' source).2.classicalCount q := by
      intro q
      rw [registers_opened, registers_opened, Metadata.classicalCount_registeredAll,
        Metadata.classicalCount_registeredAll, hcounts]
    have hmeasures := measures_opened caller a' source
    rw [hidden, ← hmeasures] at hhidden
    rw [result, pruned, result, hentry, ← hmeasures]
    -- the calls of a measurement differ in number, but it takes in none of them
    cases hm : measures (opened caller a' source).1 with
    | true => rw [results_of_measures hm, results_of_measures hm]
    | false =>
      have hbody : ∀ m ∈ hiddenAll (measures (opened caller a' source).1) inner,
          m.isMeasurement = false := by
        rw [hm] at hhidden ⊢
        exact hhidden
      have hinner := results_pruned hopened hbody
      rw [hm] at hinner
      exact hinner

theorem results_pruned {caller : Option Operation} {a a' : Allocator}
    (hcounts : ∀ q, a.classicalCount q = a'.classicalCount q) : ∀ {cs : List CallTree},
    (∀ m ∈ hiddenAll (measures caller) cs, m.isMeasurement = false) →
      (results caller a cs).1 = (results caller a' (prunedAll (measures caller) cs)).1
  | [], _ => rfl
  | c :: cs, hhidden => by
    rw [hiddenAll] at hhidden
    have hfirst := fun m hm => hhidden m (List.mem_append_left _ hm)
    have hrest := fun m hm => hhidden m (List.mem_append_right _ hm)
    have hresult := result_pruned hcounts hfirst
    have hafter : ∀ q, (c.result caller a).2.classicalCount q =
        ((c.pruned (measures caller)).result caller a').2.classicalCount q := by
      intro q
      rw [registers_result, registers_result, Metadata.classicalCount_registeredAll,
        Metadata.classicalCount_registeredAll, hcounts,
        Metadata.count_measuredQubits_eq (begunIn_perm _ c) hfirst]
    have hmeasures := measures_attach caller ((c.pruned (measures caller)).result caller a').1
    rw [results, prunedAll, results, hresult]
    rw [← hmeasures] at hrest
    have hothers := results_pruned hafter hrest
    rw [hmeasures] at hothers
    exact hothers

end

/-! ### Whole traces -/

/-- The metadata of the operations that start in a trace. -/
def begunTrace : List CallTree → List Metadata
  | [] => []
  | c :: cs => c.begunIn false ++ begunInAll (beginsMeasurement false c.source) cs

/-- **A trace without what is called inside measurements.** -/
def prunedTrace : List CallTree → List CallTree
  | [] => []
  | c :: cs => c.pruned false :: prunedAll (beginsMeasurement false c.source) cs

/-- The metadata of the operations that start inside measurements of a trace. -/
def hiddenTrace : List CallTree → List Metadata
  | [] => []
  | c :: cs => c.hidden false ++ hiddenAll (beginsMeasurement false c.source) cs

theorem begunTrace_cons (c : CallTree) (cs : List CallTree) :
    begunTrace (c :: cs) = (c.extend cs).begunIn false := by
  obtain ⟨source, inner⟩ := c
  rw [begunTrace, extend, begunIn, begunIn, begunInAll_append, List.append_assoc]
  rfl

theorem source_pruned (under : Bool) (c : CallTree) : (c.pruned under).source = c.source := by
  obtain ⟨source, inner⟩ := c
  rw [pruned]
  rfl

theorem begunTrace_perm (cs : List CallTree) :
    (begunTrace cs).Perm (begunTrace (prunedTrace cs) ++ hiddenTrace cs) := by
  rcases cs with _ | ⟨c, cs⟩
  · exact List.Perm.refl _
  · rw [begunTrace, prunedTrace, begunTrace, hiddenTrace, source_pruned]
    exact perm_append_append (begunIn_perm false c) (begunInAll_perm _ cs)

theorem lacksTarget_of_mem_begunTrace {cs : List CallTree} {m : Metadata}
    (h : m ∈ begunTrace cs) : m.lacksTarget = false := by
  rcases cs with _ | ⟨c, cs⟩
  · cases h
  · rw [begunTrace_cons] at h
    exact lacksTarget_of_mem_begunIn h

/-- **The operations that start in a trace determine its allocator.** -/
theorem replay_forest_registers (cs : List CallTree) :
    (Tracer.empty.replay (forest cs)).registers =
      Metadata.registeredAll (begunTrace cs) .empty := by
  rcases cs with _ | ⟨c, cs⟩
  · rfl
  · rw [replay_forest, begunTrace_cons]
    exact registers_result _ none .empty

theorem declarations_replay_forest (cs : List CallTree) :
    (Tracer.empty.replay (forest cs)).executionPath.qubits =
      (Metadata.registeredAll (begunTrace cs) .empty).declarations := by
  rw [← replay_forest_registers]
  rfl

/-- Whether the first call of a trace is a measurement or not, the trace and the pruned one leave
the same operations behind. -/
theorem operations_pruned {cs : List CallTree}
    (h : ∀ m ∈ hiddenTrace cs, m.isMeasurement = false) :
    (Tracer.empty.replay (forest (prunedTrace cs))).executionPath.operations =
      (Tracer.empty.replay (forest cs)).executionPath.operations := by
  rcases cs with _ | ⟨⟨source, inner⟩, cs⟩
  · rfl
  · rw [prunedTrace, executionPath_forest, executionPath_forest]
    refine congrArg Option.toList ?_
    have hmeasures : measures (opened none .empty source).1 = beginsMeasurement false source :=
      measures_opened none .empty source
    rw [hiddenTrace] at h
    simp only [pruned, extend, CallTree.source, CallTree.inner] at h ⊢
    cases hm : beginsMeasurement false source with
    | true =>
      rw [hm] at hmeasures
      rw [result, result, results_of_measures hmeasures, results_of_measures hmeasures]
    | false =>
      rw [hm] at h
      have htree : (call source (inner ++ cs)).pruned false =
          call source (prunedAll false inner ++ prunedAll false cs) := by
        simp only [pruned, hm, Bool.false_eq_true, if_false, prunedAll_append]
      have hhidden : (call source (inner ++ cs)).hidden false =
          (call source inner).hidden false ++ hiddenAll false cs := by
        simp only [hidden, hm, Bool.false_eq_true, if_false, hiddenAll_append]
      rw [← hhidden] at h
      have hresult : ((call source (inner ++ cs)).result none .empty).1 =
          (((call source (inner ++ cs)).pruned false).result none .empty).1 :=
        result_pruned (fun _ => rfl) h
      rw [htree] at hresult
      exact hresult.symm

/-- **Operations inside measurements leave no mark** on the path of a trace exactly if none of them
is a measurement, and the qubits that they mention are mentioned outside of measurements as well. -/
theorem executionPath_pruned_eq_iff (cs : List CallTree) :
    (Tracer.empty.replay (forest (prunedTrace cs))).executionPath =
        (Tracer.empty.replay (forest cs)).executionPath ↔
      ∀ m ∈ hiddenTrace cs, m.isMeasurement = false ∧ ∀ q ∈ m.controls ++ m.targets,
        ∃ m' ∈ begunTrace (prunedTrace cs), q ∈ m'.controls ++ m'.targets := by
  have hperm := begunTrace_perm cs
  have htarget : ∀ m ∈ hiddenTrace cs, m.lacksTarget = false := fun m hm =>
    lacksTarget_of_mem_begunTrace (hperm.mem_iff.mpr (List.mem_append_right _ hm))
  have hdeclarations := Metadata.declarations_registeredAll_eq_iff hperm htarget
  rw [← declarations_replay_forest, ← declarations_replay_forest] at hdeclarations
  constructor
  · intro hpath
    exact hdeclarations.mp (congrArg ExecutionPath.qubits hpath)
  · intro h
    have hoperations := operations_pruned fun m hm => (h m hm).1
    exact congrArg₂ ExecutionPath.mk (hdeclarations.mpr h) hoperations

/-- **A measurement two levels inside another one leaves a mark**: it takes a classical bit, so the
measurement behind them writes bit 2 and not bit 1, and three bits are declared instead of two. -/
theorem exists_executionPath_pruned_ne :
    ∃ cs : List CallTree,
      cs = [.call (.ok (some (.ofTargets "Main" [])))
        [.call (.ok (some (Metadata.ofTargets "M" [0]).measurement))
          [.call (.ok (some (.ofTargets "Inner" [0])))
            [.call (.ok (some (Metadata.ofTargets "M" [0]).measurement)) []]],
        .call (.ok (some (Metadata.ofTargets "M" [0]).measurement)) []]] ∧
      (Tracer.empty.replay (forest (prunedTrace cs))).executionPath.qubits = [⟨0, 2⟩] ∧
      (Tracer.empty.replay (forest cs)).executionPath.qubits = [⟨0, 3⟩] ∧
      ((Tracer.empty.replay (forest (prunedTrace cs))).executionPath.operations.flatMap
        Operation.calls).map Operation.targets = [[.classical 0 0], [.classical 0 1]] ∧
      ((Tracer.empty.replay (forest cs)).executionPath.operations.flatMap
        Operation.calls).map Operation.targets = [[.classical 0 0], [.classical 0 2]] :=
  ⟨_, rfl, by decide +kernel, by decide +kernel, by decide +kernel, by decide +kernel⟩

end CallTree

end CircuitTrace
