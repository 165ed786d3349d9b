import CircuitTrace.Proofs.Trace.Kept
import CircuitTrace.Proofs.Trace.MeasurementBody

/-! # The classical bits of a path

The measurements of a run write classical bits one after the other, those of one qubit with the
numbers 0, 1, 2, … (`bitsFrom`, `filterMap_bitsFrom`). A bit is written on the operation that the
measurement starts as, and that operation keeps it: adoption hands on qubits only (`bits_adopt`).

So the bits that are met in a path, callers before their calls, stand in the order in which they
were written (`bits_replay`). An end that throws an operation away takes bits out of that list and
moves none, and without such an end all bits are there. What is declared of a qubit counts what was
written, be it met or not: `classical_bits_numbered` puts it together. -/

namespace CircuitTrace

/-! ### Writing bits -/

/-- **The bits that measurements write**, when the qubits `before` have been measured already. -/
def bitsFrom (before : List Nat) : List Nat → List Register
  | [] => []
  | q :: qs => .classical q (before.count q) :: bitsFrom (before ++ [q]) qs

/-- The number of a classical bit of the qubit. -/
def Register.bitOf? (q : Nat) : Register → Option Nat
  | .qubit _ => none
  | .classical p c => if p = q then some c else none

theorem bitsFrom_append (before ps qs : List Nat) :
    bitsFrom before (ps ++ qs) = bitsFrom before ps ++ bitsFrom (before ++ ps) qs := by
  induction ps generalizing before with
  | nil => simp [bitsFrom]
  | cons p ps ih => simp [bitsFrom, ih]

/-- **The bits of a qubit are numbered without gaps.** -/
theorem filterMap_bitsFrom (q : Nat) (before qs : List Nat) :
    (bitsFrom before qs).filterMap (Register.bitOf? q) =
      List.range' (before.count q) (qs.count q) := by
  induction qs generalizing before with
  | nil => simp [bitsFrom]
  | cons p qs ih =>
    by_cases hp : p = q
    · subst hp
      have hnext : (before ++ [p]).count p = before.count p + 1 := by simp
      simp [bitsFrom, Register.bitOf?, ih, hnext, List.range'_succ]
    · have hnext : (before ++ [p]).count q = before.count q := by simp [hp]
      simp [bitsFrom, Register.bitOf?, ih, hnext, hp]

/-- A bit is written once. -/
theorem nodup_bitsFrom (before qs : List Nat) : (bitsFrom before qs).Nodup := by
  induction qs generalizing before with
  | nil => simp [bitsFrom]
  | cons q qs ih =>
    refine List.nodup_cons.mpr ⟨fun hmem => ?_, ih _⟩
    have hlater : before.count q ∈ (bitsFrom (before ++ [q]) qs).filterMap (Register.bitOf? q) :=
      List.mem_filterMap.mpr ⟨_, hmem, by simp [Register.bitOf?]⟩
    have hnext : (before ++ [q]).count q = before.count q + 1 := by simp
    rw [filterMap_bitsFrom, List.mem_range'_1, hnext] at hlater
    omega

/-! ### Bits of operations -/

namespace Operation

/-- The classical bits among the registers of an operation. -/
def bits (op : Operation) : List Register := (op.controls ++ op.targets).filter Register.isClassical

/-- **The classical bits that are met in trees**, callers before their calls. -/
def bitsAll (ops : List Operation) : List Register := (preorderAll ops).flatMap bits

theorem bits_adopt (p c : Operation) : (p.adopt c).bits = p.bits := by
  obtain ⟨new, hnew, hmem⟩ := exists_targets_adopt p c
  have hcontrols : (p.adopt c).controls = p.controls := rfl
  have hnone : new.filter Register.isClassical = [] := by
    rw [List.filter_eq_nil_iff]
    intro r hr
    simp [(hmem r hr).2]
  unfold bits
  rw [hcontrols, hnew, ← List.append_assoc, List.filter_append _ new, hnone, List.append_nil]

@[simp] theorem bitsAll_nil : bitsAll [] = [] := rfl

theorem bitsAll_append (ops ops' : List Operation) :
    bitsAll (ops ++ ops') = bitsAll ops ++ bitsAll ops' := by
  unfold bitsAll
  rw [preorderAll_append, List.flatMap_append]

/-- The bits of a call come to stand behind those of its caller. -/
theorem bitsAll_adopt (p c : Operation) : bitsAll [p.adopt c] = bitsAll [p] ++ bitsAll [c] := by
  unfold bitsAll
  simp only [preorderAll_cons, preorderAll_nil, List.append_nil]
  rw [preorder_adopt, preorder_eq p, List.flatMap_cons, List.flatMap_cons, bits_adopt,
    List.flatMap_append, List.append_assoc]

theorem bitsAll_of_childless {op : Operation} (h : op.children = none) :
    bitsAll [op] = op.bits := by
  unfold bitsAll
  rw [preorderAll_cons, preorder_of_childless h]
  simp

end Operation

/-- **A measurement carries the bit that it writes**, and other operations carry none. -/
theorem Metadata.bits_described (m : Metadata) (a : Allocator) :
    (m.described a).bits = bitsFrom a.measured m.measuredQubits := by
  have hqubits : ∀ qs : List Nat, (qs.map Register.qubit).filter Register.isClassical = [] := by
    intro qs
    rw [List.filter_eq_nil_iff]
    intro r hr
    obtain ⟨q, -, rfl⟩ := List.mem_map.mp hr
    simp [Register.isClassical]
  unfold Operation.bits
  rw [List.filter_append]
  cases hm : m.isMeasurement with
  | false => simp [described, measuredQubits, hm, hqubits, bitsFrom]
  | true =>
    cases htargets : m.targets with
    | nil => simp [described, measuredQubits, hm, htargets, bitsFrom]
    | cons q qs =>
      have hcontrols := hqubits (q :: qs)
      simp only [described, measuredQubits, hm, htargets, if_true, hcontrols]
      simp [bitsFrom, Register.isClassical, Allocator.classicalCount]

namespace Tracer

/-! ### What one notification does -/

/-- The classical bits that are met in the path so far. -/
def bits (t : Tracer) : List Register := Operation.bitsAll t.executionPath.operations

theorem bits_cons (a : Allocator) (entry : Option Operation) (stack : List (Option Operation)) :
    (Tracer.mk a (entry :: stack)).bits =
      (Tracer.mk a stack).bits ++ Operation.bitsAll entry.toList := by
  have hpath : (Tracer.mk a (entry :: stack)).executionPath.operations =
      (Tracer.mk a stack).executionPath.operations ++ entry.toList := by
    simp only [executionPath, List.reverse_cons, List.filterMap_append]
    cases entry <;> rfl
  unfold bits
  rw [hpath, Operation.bitsAll_append]

/-- The allocator does not matter for what is met. -/
theorem bits_congr (a a' : Allocator) (stack : List (Option Operation)) :
    (Tracer.mk a stack).bits = (Tracer.mk a' stack).bits := rfl

/-- The metadata of the operation that a source leads to, unless it is absent. -/
def begins (t : Tracer) (source : Source) : Option Metadata :=
  begun (measures t.stack.head?.join) source

/-- **A start writes the bit of a measurement**, and the bit is met last. -/
theorem bits_start (a : Allocator) (stack : List (Option Operation)) (source : Source) :
    ((Tracer.mk a stack).start source).1.bits =
      (Tracer.mk a stack).bits ++ bitsFrom a.measured
        (((Tracer.mk a stack).begins source).toList.flatMap Metadata.measuredQubits) := by
  rw [start_fst, bits_cons, bits_congr _ a]
  congr 1
  unfold begins
  rw [opened_of_begun]
  rcases begun (measures stack.head?.join) source with _ | m
  · rfl
  · have hchildren : (m.described a).children = none := rfl
    simp only [Option.toList_some, List.flatMap_cons, List.flatMap_nil, List.append_nil]
    rw [Operation.bitsAll_of_childless hchildren, Metadata.bits_described]

theorem measured_registered (m : Metadata) (a : Allocator) :
    (m.registered a).measured = a.measured ++ m.measuredQubits := by
  unfold Metadata.registered Metadata.measuredQubits
  split_ifs <;> simp

theorem registers_start (t : Tracer) (source : Source) :
    (t.start source).1.registers =
      Metadata.registeredAll (t.begins source).toList t.registers := by
  obtain ⟨a, stack⟩ := t
  rw [start_fst]
  exact registers_opened _ a source

theorem measured_start (t : Tracer) (source : Source) :
    (t.start source).1.registers.measured =
      t.registers.measured ++ (t.begins source).toList.flatMap Metadata.measuredQubits := by
  rw [registers_start]
  rcases t.begins source with _ | m
  · simp [Metadata.registeredAll]
  · simp [Metadata.registeredAll, measured_registered]

theorem registers_finish (t : Tracer) : t.finish.1.registers = t.registers := by
  obtain ⟨a, stack⟩ := t
  rcases stack with _ | ⟨entry, _ | ⟨below, stack⟩⟩
  · rfl
  · rw [finish_singleton]
  · rw [finish_fst]

/-- **An end moves no bits.** It takes those of the innermost operation away if it throws that
operation away. -/
theorem bits_finish (t : Tracer) :
    t.finish.1.bits.Sublist t.bits ∧ (t.discards = false → t.finish.1.bits = t.bits) := by
  obtain ⟨a, stack⟩ := t
  rcases stack with _ | ⟨entry, _ | ⟨below, stack⟩⟩
  · exact ⟨List.Sublist.refl _, fun _ => rfl⟩
  · rw [finish_singleton]
    exact ⟨List.Sublist.refl _, fun _ => rfl⟩
  · rw [finish_fst, bits_cons, bits_cons, bits_cons, List.append_assoc]
    cases hdiscards : (Tracer.mk a (entry :: below :: stack)).discards with
    | true =>
      rw [attach_of_discards hdiscards]
      refine ⟨?_, fun h => absurd h (by decide)⟩
      rw [← List.append_assoc]
      exact List.sublist_append_left _ _
    | false =>
      have hattach : Operation.bitsAll (attach below entry).toList =
          Operation.bitsAll below.toList ++ Operation.bitsAll entry.toList := by
        rcases entry with _ | op
        · have hsame : attach below none = below := by cases below <;> rfl
          simp [hsame]
        · rcases below with _ | parent
          · cases hdiscards
          · have hboth : (parent.isControlledX && op.isControlledX) = false := by
              rw [Bool.and_comm]
              exact hdiscards
            have hsome : attach (some parent) (some op) = some (parent.adopt op) := by
              simp [attach, hboth]
            rw [hsome]
            exact Operation.bitsAll_adopt parent op
      rw [hattach]
      exact ⟨List.Sublist.refl _, fun _ => rfl⟩

/-! ### Runs -/

/-- **The metadata of the operations that start in a run** and are not absent, in order. -/
def begunBy (t : Tracer) : List Notification → List Metadata
  | [] => []
  | .start source :: ns =>
    (t.begins source).toList ++ (t.step (.start source)).1.begunBy ns
  | .finish :: ns => (t.step .finish).1.begunBy ns

/-- **A run throws nothing away.** -/
def KeepsAll (t : Tracer) (ns : List Notification) : Prop :=
  ∀ ks rs, ns = ks ++ .finish :: rs → (t.replay ks).discards = false

theorem keepsAll_cons {t : Tracer} {n : Notification} {ns : List Notification} :
    t.KeepsAll (n :: ns) ↔
      (n = .finish → t.discards = false) ∧ (t.step n).1.KeepsAll ns := by
  constructor
  · intro h
    refine ⟨fun hn => h [] ns (by rw [hn]; rfl), ?_⟩
    rintro ks rs rfl
    exact h (n :: ks) rs rfl
  · rintro ⟨hfirst, hrest⟩ ks rs hns
    cases ks with
    | nil => exact hfirst (List.cons.inj hns).1
    | cons k ks =>
      obtain ⟨rfl, htail⟩ := List.cons.inj hns
      exact hrest ks rs htail

instance decidableKeepsAll : ∀ (ns : List Notification) (t : Tracer), Decidable (t.KeepsAll ns)
  | [], _ => isTrue fun ks rs h => by simp at h
  | .start source :: ns, t =>
    have := decidableKeepsAll ns (t.step (.start source)).1
    decidable_of_iff ((t.step (.start source)).1.KeepsAll ns) (by rw [keepsAll_cons]; simp)
  | .finish :: ns, t =>
    have := decidableKeepsAll ns (t.step .finish).1
    decidable_of_iff (t.discards = false ∧ (t.step .finish).1.KeepsAll ns)
      (by rw [keepsAll_cons]; simp)

/-- The operations that start in a run determine the allocator after it. -/
theorem registers_replay (ns : List Notification) (t : Tracer) :
    (t.replay ns).registers = Metadata.registeredAll (t.begunBy ns) t.registers := by
  induction ns generalizing t with
  | nil => rfl
  | cons n ns ih =>
    rw [replay_cons, ih]
    cases n with
    | start source =>
      rw [begunBy, Metadata.registeredAll_append, ← registers_start]
      rfl
    | finish => rw [begunBy, step, registers_finish]

/-- **The bits that are met after a run** are those that were met before and those that the run
writes, in that order, without those that are thrown away. -/
theorem bits_replay (ns : List Notification) (t : Tracer) :
    let written := bitsFrom t.registers.measured
      ((t.begunBy ns).flatMap Metadata.measuredQubits)
    (t.replay ns).bits.Sublist (t.bits ++ written) ∧
      (t.KeepsAll ns → (t.replay ns).bits = t.bits ++ written) := by
  induction ns generalizing t with
  | nil =>
    have hnone : t.bits ++ bitsFrom t.registers.measured [] = t.bits := List.append_nil _
    exact ⟨by simp [begunBy, replay, hnone], fun _ => hnone.symm⟩
  | cons n ns ih =>
    intro written
    obtain ⟨hsublist, hequal⟩ := ih (t.step n).1
    rw [replay_cons]
    cases n with
    | start source =>
      obtain ⟨a, stack⟩ := t
      -- what the start writes and what the rest of the run writes
      have hwritten : ((Tracer.mk a stack).step (.start source)).1.bits ++
          bitsFrom ((Tracer.mk a stack).step (.start source)).1.registers.measured
            ((((Tracer.mk a stack).step (.start source)).1.begunBy ns).flatMap
              Metadata.measuredQubits) = (Tracer.mk a stack).bits ++ written := by
        rw [step, bits_start, measured_start, List.append_assoc, ← bitsFrom_append,
          ← List.flatMap_append]
        rfl
      rw [hwritten] at hsublist hequal
      exact ⟨hsublist, fun h => hequal (keepsAll_cons.mp h).2⟩
    | finish =>
      have hregisters : (t.step .finish).1.registers = t.registers := registers_finish t
      rw [hregisters] at hsublist hequal
      obtain ⟨hfinish, hsame⟩ := bits_finish t
      refine ⟨hsublist.trans (hfinish.append_right written), fun h => ?_⟩
      obtain ⟨hdiscards, hrest⟩ := keepsAll_cons.mp h
      rw [hequal hrest]
      exact congrArg (· ++ written) (hsame (hdiscards rfl))

/-- A qubit counts for the measurements that name it first. -/
theorem count_measuredQubits (q : Nat) (ms : List Metadata) :
    (ms.flatMap Metadata.measuredQubits).count q =
      ms.countP fun m => m.isMeasurement && m.targets.head? == some q := by
  induction ms with
  | nil => rfl
  | cons m ms ih =>
    rw [List.flatMap_cons, List.count_append, ih, List.countP_cons, Nat.add_comm]
    congr 1
    unfold Metadata.measuredQubits
    cases hm : m.isMeasurement with
    | false => simp
    | true => cases m.targets <;> simp [List.count_singleton]

/-- The counts that a run leaves with the allocator. -/
theorem classicalCount_replay (ns : List Notification) (q : Nat) :
    (empty.replay ns).registers.classicalCount q =
      (empty.begunBy ns).countP fun m => m.isMeasurement && m.targets.head? == some q := by
  rw [registers_replay, Metadata.classicalCount_registeredAll, count_measuredQubits]
  exact Nat.zero_add _

/-- **The classical bits of a qubit are numbered consistently.** Its declaration counts the
measurements that started and name it first. The bits of it that are met in the path have increasing
numbers below that count, no bit is met twice, and the last bit that was written is the one before
the count. If nothing is thrown away, all bits are met; measurements that are absent write none. -/
theorem classical_bits_numbered (ns : List Notification) (q : Nat) :
    let t := empty.replay ns
    let count := (empty.begunBy ns).countP fun m => m.isMeasurement && m.targets.head? == some q
    let met := (Operation.bitsAll t.executionPath.operations).filterMap (Register.bitOf? q)
    (∀ d ∈ t.executionPath.qubits, d.id = q → d.numChildren = count) ∧
      ((∀ d ∈ t.executionPath.qubits, d.id ≠ q) → count = 0) ∧
      met.Pairwise (· < ·) ∧ (∀ c ∈ met, c < count) ∧
      (Operation.bitsAll t.executionPath.operations).Nodup ∧
      (count = 0 → t.registers.latestClassical q = .error ⟨q⟩) ∧
      (0 < count → t.registers.latestClassical q = .ok (.classical q (count - 1))) ∧
      (empty.KeepsAll ns → met = List.range count) := by
  intro t count met
  have hcount : t.registers.classicalCount q = count := classicalCount_replay ns q
  obtain ⟨hsublist, hequal⟩ := bits_replay ns empty
  have hnone : empty.bits = [] := rfl
  rw [hnone, List.nil_append] at hsublist hequal
  -- what is written of the qubit is numbered from zero
  have hwritten : (bitsFrom empty.registers.measured
      ((empty.begunBy ns).flatMap Metadata.measuredQubits)).filterMap (Register.bitOf? q) =
        List.range count := by
    rw [filterMap_bitsFrom, count_measuredQubits]
    exact List.range'_eq_map_range.trans (by simp [empty, Allocator.empty, count])
  have hmet : met.Sublist (List.range count) := hwritten ▸ hsublist.filterMap (Register.bitOf? q)
  refine ⟨fun d hd hid => ?_, fun hfresh => ?_, List.pairwise_lt_range.sublist hmet,
    fun c hc => List.mem_range.mp (hmet.subset hc), (nodup_bitsFrom _ _).sublist hsublist,
    fun hzero => ?_, fun hpos => ?_, fun hkeeps => ?_⟩
  · obtain ⟨p, -, rfl⟩ := List.mem_map.mp hd
    have hp : p = q := hid
    rw [← hcount, ← hp]
  · by_contra hcounted
    obtain ⟨m, hm, hfirst⟩ := List.countP_pos_iff.mp (Nat.pos_of_ne_zero hcounted)
    have htarget : q ∈ m.targets := by
      simp only [Bool.and_eq_true, beq_iff_eq] at hfirst
      exact List.mem_of_head? hfirst.2
    have hdeclared : q ∈ t.executionPath.qubits.map QubitDeclaration.id := by
      rw [executionPath, Allocator.map_id_declarations, registers_replay]
      exact Metadata.mem_qubits_registeredAll.mpr
        (Or.inr ⟨m, hm, List.mem_append_right _ htarget⟩)
    obtain ⟨d, hd, hid⟩ := List.mem_map.mp hdeclared
    exact hfresh d hd hid
  · unfold Allocator.latestClassical
    rw [hcount, hzero]
  · unfold Allocator.latestClassical
    rw [hcount]
    cases hn : count with
    | zero => omega
    | succ n => rfl
  · have hbits : t.bits = _ := hequal hkeeps
    rw [← hwritten, ← hbits]
    rfl

/-- Two of three measurements are of qubit 1, one of them by a call. -/
theorem classical_bits_numbered_of_three :
    let ns : List Notification :=
      [.start (.ok (some (.ofTargets "Main" []))),
        .start (.ok (some (Metadata.ofTargets "M" [1]).measurement)), .finish,
        .start (.ok (some (.ofTargets "Layer" [0]))),
        .start (.ok (some (Metadata.ofTargets "M" [0]).measurement)), .finish,
        .start (.ok (some (Metadata.ofTargets "M" [1, 0]).measurement)), .finish, .finish]
    empty.KeepsAll ns ∧
      (Operation.bitsAll (empty.replay ns).executionPath.operations).filterMap
        (Register.bitOf? 1) = List.range 2 := by
  intro ns
  have hkeeps : empty.KeepsAll ns := by decide +kernel
  have hmet := (classical_bits_numbered ns 1).2.2.2.2.2.2.2 hkeeps
  exact ⟨hkeeps, hmet.trans (by decide +kernel)⟩

/-- The first of two measurements is thrown away: bit 0 is counted and not met. -/
example :
    let t := empty.replay
      [.start (.ok (some (.ofTargets "Main" []))), .start (.ok none),
        .start (.ok (some (Metadata.ofTargets "M" [0]).measurement)), .finish, .finish,
        .start (.ok (some (Metadata.ofTargets "M" [0]).measurement)), .finish]
    t.executionPath.qubits = [⟨0, 2⟩] ∧
      Operation.bitsAll t.executionPath.operations = [.classical 0 1] := by
  decide +kernel

end Tracer

end CircuitTrace
