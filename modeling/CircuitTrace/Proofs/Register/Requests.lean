import CircuitTrace.Proofs.Register.Allocator

/-! # Requests to an allocator

A trace uses its allocator by requests of five kinds (`Allocator.Request`), one after the other. An
allocator that has served requests is known in closed form (`serveAll_eq`): it has the qubits that
were mentioned, and the measurements in the order in which they were asked for.

An answer is about the qubits of its request, and only the measurements of a qubit show in what is
answered about it (`answer_reduce`). So the requests of other qubits might as well not have been made
(`transcript_about`), the bits of a qubit are numbered from zero without gaps (`bits_transcript`),
and the latest of them is found (`serve_latest`). `qubits_apart` collects this, with what is
declared in the end. -/

namespace CircuitTrace

namespace Allocator

/-- A request to an allocator. -/
inductive Request where
  /-- The register of a qubit. -/
  | register (q : Nat)
  /-- The registers of qubits. -/
  | registers (qs : List Nat)
  /-- The classical bit that the next measurement of a qubit writes. -/
  | allocate (q : Nat)
  /-- The classical bit that the latest measurement of a qubit wrote. -/
  | latest (q : Nat)
  /-- The number of classical bits of a qubit. -/
  | count (q : Nat)
  deriving DecidableEq

/-- The answer to a request. -/
inductive Answer where
  /-- One register. -/
  | register (r : Register)
  /-- Registers. -/
  | registers (rs : List Register)
  /-- The latest classical bit, if there is one. -/
  | latest (found : Except NoClassicalRegister Register)
  /-- A number. -/
  | count (n : Nat)
  deriving DecidableEq

/-- A request is served. -/
def serve (a : Allocator) : Request → Answer × Allocator
  | .register q => (.register (a.registerFor q).1, (a.registerFor q).2)
  | .registers qs => (.registers (a.registersFor qs).1, (a.registersFor qs).2)
  | .allocate q => (.register (a.allocateClassical q).1, (a.allocateClassical q).2)
  | .latest q => (.latest (a.latestClassical q), a)
  | .count q => (.count (a.classicalCount q), a)

/-- The allocator after requests. -/
def serveAll (a : Allocator) (rs : List Request) : Allocator := rs.foldl (fun a r => (a.serve r).2) a

/-- **The requests with their answers**, in order. -/
def transcript (a : Allocator) : List Request → List (Request × Answer)
  | [] => []
  | r :: rs => (r, (a.serve r).1) :: (a.serve r).2.transcript rs

theorem serveAll_cons (a : Allocator) (r : Request) (rs : List Request) :
    a.serveAll (r :: rs) = (a.serve r).2.serveAll rs := rfl

theorem transcript_cons (a : Allocator) (r : Request) (rs : List Request) :
    a.transcript (r :: rs) = (r, (a.serve r).1) :: (a.serve r).2.transcript rs := rfl

/-! ### What a request changes -/

namespace Request

/-- The qubits that a request mentions. -/
def mentioned : Request → List Nat
  | register q => [q]
  | registers qs => qs
  | allocate _ | latest _ | count _ => []

/-- The qubit that a request measures, if it does. -/
def measured : Request → List Nat
  | allocate q => [q]
  | register _ | registers _ | latest _ | count _ => []

/-- The qubits that a request is about. -/
def qubits : Request → List Nat
  | registers qs => qs
  | register q | allocate q | latest q | count q => [q]

/-- The request reduced to a qubit that it is about. -/
def reduce (q : Nat) : Request → Request
  | registers qs => registers (qs.filter (· = q))
  | r => r

/-- The request as far as it is about a qubit. -/
def about? (q : Nat) (r : Request) : Option Request :=
  if q ∈ r.qubits then some (r.reduce q) else none

theorem count_measured (q : Nat) (rs : List Request) :
    (rs.flatMap measured).count q = rs.count (allocate q) := by
  induction rs with
  | nil => rfl
  | cons r rs ih =>
    rw [List.flatMap_cons, List.count_append, ih, List.count_cons, Nat.add_comm]
    cases r <;> simp [measured, List.count_singleton]

end Request

/-- What was answered about a qubit: of the registers of qubits, those of this one. -/
def Answer.reduce (q : Nat) : Request → Answer → Answer
  | .registers qs, .registers rs =>
    .registers (((qs.zip rs).filter fun x => x.1 = q).map Prod.snd)
  | _, x => x

/-- An exchange as far as it is about a qubit. -/
def about? (q : Nat) (x : Request × Answer) : Option (Request × Answer) :=
  (x.1.about? q).map fun r => (r, x.2.reduce q x.1)

/-- The classical bit that an exchange has allocated for a qubit. -/
def bit? (q : Nat) : Request × Answer → Option Register
  | (.allocate p, .register r) => if p = q then some r else none
  | _ => none

theorem classicalCount_empty (q : Nat) : empty.classicalCount q = 0 := rfl

/-- **What a request leaves behind.** -/
theorem serve_snd (a : Allocator) (r : Request) :
    (a.serve r).2 = ⟨(a.mentionAll r.mentioned).qubits, a.measured ++ r.measured⟩ := by
  cases r with
  | registers qs =>
    show a.mentionAll qs = ⟨(a.mentionAll qs).qubits, a.measured ++ []⟩
    rw [List.append_nil, ← measured_mentionAll qs a]
  | allocate q => rfl
  | register q | latest q | count q =>
    simp [serve, registerFor, mention, mentionAll, Request.mentioned, Request.measured]

/-- **What requests leave behind.** -/
theorem serveAll_eq (a : Allocator) (rs : List Request) :
    a.serveAll rs =
      ⟨(a.mentionAll (rs.flatMap Request.mentioned)).qubits,
        a.measured ++ rs.flatMap Request.measured⟩ := by
  induction rs generalizing a with
  | nil => simp [serveAll, mentionAll]
  | cons r rs ih =>
    rw [serveAll_cons, ih, serve_snd]
    simp only [qubits_mentionAll, List.flatMap_cons, List.foldl_append, List.append_assoc]

theorem classicalCount_serve (a : Allocator) (r : Request) (q : Nat) :
    (a.serve r).2.classicalCount q = a.classicalCount q + r.measured.count q := by
  rw [serve_snd, classicalCount, List.count_append]
  rfl

theorem classicalCount_serveAll (a : Allocator) (rs : List Request) (q : Nat) :
    (a.serveAll rs).classicalCount q = a.classicalCount q + rs.count (.allocate q) := by
  rw [serveAll_eq, classicalCount, List.count_append, Request.count_measured]
  rfl

/-! ### What is answered about a qubit -/

theorem Request.count_measured_of_notMem {q : Nat} {r : Request} (h : q ∉ r.qubits) :
    r.measured.count q = 0 := by
  cases r with
  | allocate p => exact List.count_eq_zero.mpr h
  | register p | registers ps | latest p | count p => rfl

theorem Request.measured_reduce (q : Nat) (r : Request) : (r.reduce q).measured = r.measured := by
  cases r <;> rfl

/-- Of the registers of qubits, those of one qubit are what is answered if only it is asked for. -/
theorem reduce_registers (q : Nat) (qs : List Nat) :
    ((qs.zip (qs.map Register.qubit)).filter fun x => x.1 = q).map Prod.snd =
      (qs.filter (· = q)).map Register.qubit := by
  induction qs with
  | nil => rfl
  | cons p qs ih =>
    by_cases h : p = q
    · simp [h, ih]
    · simp [h, ih]

/-- **Only the measurements of a qubit show** in what is answered about it. -/
theorem answer_reduce {a b : Allocator} {q : Nat} (h : a.classicalCount q = b.classicalCount q)
    {r : Request} (hr : q ∈ r.qubits) :
    (a.serve r).1.reduce q r = (b.serve (r.reduce q)).1 := by
  cases r with
  | registers qs => exact congrArg Answer.registers (reduce_registers q qs)
  | register p => rfl
  | allocate p =>
    obtain rfl := List.mem_singleton.mp hr
    exact congrArg (fun n => Answer.register (.classical q n)) h
  | latest p =>
    obtain rfl := List.mem_singleton.mp hr
    show Answer.latest (a.latestClassical q) = .latest (b.latestClassical q)
    unfold latestClassical
    rw [h]
  | count p =>
    obtain rfl := List.mem_singleton.mp hr
    exact congrArg Answer.count h

/-- **The requests of other qubits change nothing** in what is answered about a qubit. -/
theorem transcript_about {q : Nat} (rs : List Request) {a b : Allocator}
    (h : a.classicalCount q = b.classicalCount q) :
    (a.transcript rs).filterMap (about? q) = b.transcript (rs.filterMap (Request.about? q)) := by
  induction rs generalizing a b with
  | nil => rfl
  | cons r rs ih =>
    have hcount := classicalCount_serve a r q
    by_cases hr : q ∈ r.qubits
    · have hrequest : r.about? q = some (r.reduce q) := if_pos hr
      have hexchange : about? q (r, (a.serve r).1) =
          some (r.reduce q, (b.serve (r.reduce q)).1) := by
        rw [about?, hrequest, Option.map_some, answer_reduce h hr]
      have hnext : (a.serve r).2.classicalCount q =
          (b.serve (r.reduce q)).2.classicalCount q := by
        rw [hcount, classicalCount_serve, Request.measured_reduce, h]
      rw [transcript_cons, List.filterMap_cons_some hexchange, List.filterMap_cons_some hrequest,
        transcript_cons, ih hnext]
    · have hrequest : r.about? q = none := if_neg hr
      have hexchange : about? q (r, (a.serve r).1) = none := by
        rw [about?, hrequest, Option.map_none]
      have hnext : (a.serve r).2.classicalCount q = b.classicalCount q := by
        rw [hcount, Request.count_measured_of_notMem hr, h, Nat.add_zero]
      rw [transcript_cons, List.filterMap_cons_none hexchange, List.filterMap_cons_none hrequest,
        ih hnext]

/-- **The bits of a qubit are numbered one after the other.** -/
theorem bits_transcript (q : Nat) (rs : List Request) (a : Allocator) :
    (a.transcript rs).filterMap (bit? q) =
      (List.range' (a.classicalCount q) (rs.count (.allocate q))).map (Register.classical q) := by
  induction rs generalizing a with
  | nil => rfl
  | cons r rs ih =>
    have hcount := classicalCount_serve a r q
    by_cases hr : r = .allocate q
    · subst hr
      have hbit : bit? q (.allocate q, (a.serve (.allocate q)).1) =
          some (.classical q (a.classicalCount q)) := if_pos rfl
      have hone : (Request.allocate q).measured.count q = 1 := List.count_singleton_self
      rw [transcript_cons, List.filterMap_cons_some hbit, ih, hcount, hone, List.count_cons_self,
        List.range'_succ, List.map_cons]
    · have hbit : bit? q (r, (a.serve r).1) = none := by
        cases r with
        | allocate p => exact if_neg fun h => hr (congrArg Request.allocate h)
        | register p | registers ps | latest p | count p => rfl
      have hnone : r.measured.count q = 0 := by
        cases r with
        | allocate p =>
          exact List.count_eq_zero.mpr fun h =>
            hr (congrArg Request.allocate (List.mem_singleton.mp h).symm)
        | register p | registers ps | latest p | count p => rfl
      rw [transcript_cons, List.filterMap_cons_none hbit, ih, hcount, hnone, Nat.add_zero,
        List.count_cons_of_ne hr]

/-- The bits that were allocated for a qubit since nothing had been measured. -/
theorem bits_transcript_empty (q : Nat) (rs : List Request) :
    (empty.transcript rs).filterMap (bit? q) =
      (List.range (rs.count (.allocate q))).map (Register.classical q) := by
  rw [bits_transcript, classicalCount_empty, List.range_eq_range']

example : (empty.transcript
    [.registers [5, 1], .allocate 5, .allocate 1, .allocate 5, .latest 5]).filterMap (bit? 5) =
      [.classical 5 0, .classical 5 1] := by
  decide

/-- **The latest bit of a qubit** is the one that was allocated last. -/
theorem latestClassical_serveAll (q : Nat) (rs : List Request) :
    (empty.serveAll rs).latestClassical q =
      match ((empty.transcript rs).filterMap (bit? q)).getLast? with
      | none => .error ⟨q⟩
      | some r => .ok r := by
  have hcount : (empty.serveAll rs).classicalCount q = rs.count (.allocate q) := by
    rw [classicalCount_serveAll, classicalCount_empty, Nat.zero_add]
  rw [bits_transcript_empty, latestClassical, hcount]
  cases rs.count (.allocate q) with
  | zero => rfl
  | succ n => rw [List.range_succ, List.map_append, List.map_singleton, List.getLast?_concat]

theorem mem_qubits_serveAll {q : Nat} {rs : List Request} :
    q ∈ (empty.serveAll rs).qubits ↔ ∃ r ∈ rs, q ∈ r.mentioned := by
  rw [serveAll_eq, mem_qubits_mentionAll, List.mem_flatMap]
  exact or_iff_right List.not_mem_nil

theorem mem_declarations {a : Allocator} {d : QubitDeclaration} :
    d ∈ a.declarations ↔ d.id ∈ a.qubits ∧ d.numChildren = a.classicalCount d.id := by
  unfold declarations
  rw [List.mem_map]
  constructor
  · rintro ⟨q, hq, rfl⟩
    exact ⟨hq, rfl⟩
  · rintro ⟨hq, hcount⟩
    exact ⟨d.id, hq, by rw [← hcount]⟩

/-- **Qubits do not interfere.** After any requests to a new allocator:

* what was answered about a qubit is what is answered if only the requests about it are made, those
  for the registers of several qubits being reduced to it;
* the bits that were allocated for the qubit are numbered from zero, in their order;
* its latest bit is the last one of them, and there is none exactly if none was allocated;
* declared are the qubits that were mentioned, in strictly increasing order, each with the number of
  bits that were allocated for it. -/
theorem qubits_apart (rs : List Request) :
    (∀ q, (empty.transcript rs).filterMap (about? q) =
      empty.transcript (rs.filterMap (Request.about? q))) ∧
    (∀ q, (empty.transcript rs).filterMap (bit? q) =
      (List.range (rs.count (.allocate q))).map (Register.classical q)) ∧
    (∀ q, ((empty.serveAll rs).serve (.latest q)).1 =
        .latest (match ((empty.transcript rs).filterMap (bit? q)).getLast? with
          | none => .error ⟨q⟩
          | some r => .ok r)) ∧
    (∀ q, ((empty.serveAll rs).serve (.latest q)).1 = .latest (.error ⟨q⟩) ↔
      .allocate q ∉ rs) ∧
    (empty.serveAll rs).declarations.Pairwise (fun d e => d.id < e.id) ∧
    ∀ d, d ∈ (empty.serveAll rs).declarations ↔
      (∃ r ∈ rs, d.id ∈ r.mentioned) ∧ d.numChildren = rs.count (.allocate d.id) := by
  have hlatest : ∀ q, ((empty.serveAll rs).serve (.latest q)).1 =
      .latest (match ((empty.transcript rs).filterMap (bit? q)).getLast? with
        | none => .error ⟨q⟩
        | some r => .ok r) := fun q => congrArg Answer.latest (latestClassical_serveAll q rs)
  refine ⟨fun q => transcript_about rs rfl, fun q => bits_transcript_empty q rs, hlatest,
    fun q => ?_, ?_, fun d => ?_⟩
  · rw [hlatest, bits_transcript_empty, ← List.count_eq_zero]
    cases rs.count (.allocate q) with
    | zero => simp
    | succ n => simp [List.range_succ]
  · have hascending : (empty.serveAll rs).qubits.Pairwise (· < ·) := by
      rw [serveAll_eq]
      exact ascending_mentionAll List.Pairwise.nil
    rw [← map_id_declarations] at hascending
    exact List.pairwise_map.mp hascending
  · rw [mem_declarations, mem_qubits_serveAll, classicalCount_serveAll]
    exact and_congr_right fun _ => by rw [classicalCount_empty, Nat.zero_add]

end Allocator

end CircuitTrace
