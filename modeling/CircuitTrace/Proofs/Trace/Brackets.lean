import CircuitTrace.Proofs.Operation.Wires
import CircuitTrace.Proofs.Trace.Step
import Mathlib.Data.List.Forall2

/-! # What an observer is told is bracketed

An observer is told when an operation starts and when it ends, with its depth. It does not see the
stack: absent entries are not reported, so the depths that it is told may jump, and an operation is
reported to end also if it is thrown away then. Still it can follow the stack by a list of the
starts that are *open* (`Bracketed`). Every start is deeper than the open ones, and every end closes
the deepest of them, at the same depth; the operation that ends is the one that started, with what
it has taken in since (`Operation.Extends`).

The reason is that after every notification the open starts are the entries of the stack that are
not absent, at their places (`Tracer.Shows`), which a start and an end keep up (`bracketed_start`,
`bracketed_finish`). `observer_calls_bracketed` is what this means for a run from the beginning. -/

namespace CircuitTrace

namespace Operation

/-- **An operation extends another one** if it is the same up to calls that have been attached and
qubits that have been appended to its targets. -/
def Extends (op first : Operation) : Prop :=
  ∃ (calls : List Operation) (new : List Register),
    op = { first with
      children := if calls.isEmpty then first.children else some (first.calls ++ calls)
      targets := first.targets ++ new } ∧
    ∀ r ∈ new, r.isClassical = false

theorem Extends.refl (op : Operation) : op.Extends op :=
  ⟨[], [], by cases op; simp, fun _ h => absurd h List.not_mem_nil⟩

theorem Extends.adopt {op first : Operation} (h : op.Extends first) (c : Operation) :
    (op.adopt c).Extends first := by
  obtain ⟨calls, new, hop, hnew⟩ := h
  obtain ⟨more, htargets, hmore⟩ := exists_targets_adopt op c
  have hcalls : op.calls = first.calls ++ calls := by
    rw [hop]
    rcases calls with _ | ⟨d, calls⟩
    · exact (List.append_nil _).symm
    · rfl
  refine ⟨calls ++ [c], new ++ more, ?_, fun r hr => ?_⟩
  · have hadopt : op.adopt c =
        { op with targets := op.targets ++ more, children := some (op.calls ++ [c]) } := by
      rw [← htargets]
      rfl
    have hcons : (calls ++ [c]).isEmpty = false := by simp
    rw [hadopt, hcalls, hcons, hop]
    simp only [List.append_assoc, Bool.false_eq_true, if_false]
  · exact (List.mem_append.mp hr).elim (hnew r) fun h => (hmore r h).2

end Operation

/-! ### Brackets -/

/-- **Reports are bracketed**: from a list of open starts, the deepest one first, they lead to
another one. A start has to be deeper than all that are open. An end has to close the deepest open
start, at its depth, with an operation that extends the one that started; nothing ends at
depth 1. -/
inductive Bracketed : (before : List (Operation × Nat)) → List Report →
    (after : List (Operation × Nat)) → Prop
  | nil {before : List (Operation × Nat)} : Bracketed before [] before
  | started {before after : List (Operation × Nat)} {op : Operation} {depth : Nat}
    {rs : List Report} (hdeeper : ∀ c ∈ before, c.2 < depth)
    (hrest : Bracketed ((op, depth) :: before) rs after) :
    Bracketed before (.started op depth :: rs) after
  | ended {before after : List (Operation × Nat)} {first op : Operation} {depth : Nat}
    {rs : List Report} (hdeepest : ∀ c ∈ before, c.2 < depth) (hinner : depth ≠ 1)
    (hextends : op.Extends first) (hrest : Bracketed before rs after) :
    Bracketed ((first, depth) :: before) (.ended op depth :: rs) after

theorem Bracketed.append {before between after : List (Operation × Nat)} {rs ss : List Report}
    (h : Bracketed before rs between) (hs : Bracketed between ss after) :
    Bracketed before (rs ++ ss) after := by
  induction h with
  | nil => exact hs
  | started hdeeper _ ih => exact .started hdeeper (ih hs)
  | ended hdeepest hinner hextends _ ih => exact .ended hdeepest hinner hextends (ih hs)

namespace Tracer

/-- **The entries of a stack that are not absent**, the innermost first, with their places: the
outermost entry has place 1. -/
def presentEntries : List (Option Operation) → List (Operation × Nat)
  | [] => []
  | none :: below => presentEntries below
  | some op :: below => (op, below.length + 1) :: presentEntries below

/-- **Open starts show a stack** if they are its entries at their places, as these were when they
started. -/
def Shows (starts : List (Operation × Nat)) (stack : List (Option Operation)) : Prop :=
  List.Forall₂ (fun first entry => first.2 = entry.2 ∧ entry.1.Extends first.1) starts
    (presentEntries stack)

theorem le_length_of_mem_presentEntries {e : Operation × Nat} :
    ∀ {stack : List (Option Operation)}, e ∈ presentEntries stack → e.2 ≤ stack.length
  | none :: below, h => Nat.le_succ_of_le (le_length_of_mem_presentEntries h)
  | some op :: below, h => by
    rw [presentEntries, List.mem_cons] at h
    rcases h with rfl | h
    · exact Nat.le_refl _
    · exact Nat.le_succ_of_le (le_length_of_mem_presentEntries h)

section Steps

variable {starts : List (Operation × Nat)} {stack : List (Option Operation)}

theorem Shows.map_depth (h : Shows starts stack) :
    starts.map Prod.snd = (presentEntries stack).map Prod.snd := by
  unfold Shows at h
  generalize presentEntries stack = entries at h ⊢
  induction h with
  | nil => rfl
  | cons hfirst _ ih => rw [List.map_cons, List.map_cons, hfirst.1, ih]

/-- Open starts lie no deeper than the stack is high. -/
theorem Shows.depth_le (h : Shows starts stack) : ∀ c ∈ starts, c.2 ≤ stack.length := by
  intro c hc
  have hdepth : c.2 ∈ starts.map Prod.snd := List.mem_map_of_mem hc
  rw [h.map_depth] at hdepth
  obtain ⟨e, he, hdepth⟩ := List.mem_map.mp hdepth
  exact hdepth ▸ le_length_of_mem_presentEntries he

theorem Shows.attach {below : Option Operation} (h : Shows starts (below :: stack))
    (call : Option Operation) : Shows starts (attach below call :: stack) := by
  rcases below with _ | op
  · exact h
  · rcases call with _ | c
    · exact h
    · unfold Shows at h ⊢
      rw [presentEntries] at h
      simp only [Tracer.attach]
      split_ifs
      · exact h
      · rcases h with _ | ⟨⟨hdepth, hextends⟩, hrest⟩
        exact .cons ⟨hdepth, hextends.adopt c⟩ hrest

/-- **A start opens the entry that it puts on the stack.** -/
theorem bracketed_start (a : Allocator) (h : Shows starts stack) (source : Source) :
    ∃ after, Bracketed starts (((Tracer.mk a stack).start source).2.filter Report.isCall) after ∧
      Shows after ((Tracer.mk a stack).start source).1.stack := by
  rw [start_calls, start_fst]
  rcases (opened stack.head?.join a source).1 with _ | op
  · exact ⟨starts, .nil, h⟩
  · exact ⟨_, .started (fun c hc => Nat.lt_succ_of_le (h.depth_le c hc)) .nil,
      .cons ⟨rfl, .refl op⟩ h⟩

/-- **An end closes the entry that it takes off the stack.** -/
theorem bracketed_finish (a : Allocator) (h : Shows starts stack) :
    ∃ after, Bracketed starts ((Tracer.mk a stack).finish.2.filter Report.isCall) after ∧
      Shows after (Tracer.mk a stack).finish.1.stack := by
  rcases stack with _ | ⟨entry, _ | ⟨below, stack⟩⟩
  · exact ⟨starts, .nil, h⟩
  · rw [finish_singleton]
    exact ⟨starts, .nil, h⟩
  · rw [finish_calls, finish_fst]
    rcases entry with _ | op
    · have hbelow : Shows starts (below :: stack) := h
      exact ⟨starts, .nil, hbelow.attach none⟩
    · unfold Shows at h
      rw [presentEntries] at h
      rcases h with _ | @⟨⟨first, depth⟩, _, before, _, ⟨hdepth, hextends⟩, hrest⟩
      have hbelow : Shows before (below :: stack) := hrest
      have hplace : depth = stack.length + 2 := hdepth
      subst hplace
      refine ⟨before, .ended (fun c hc => ?_) (by omega) hextends .nil, hbelow.attach (some op)⟩
      exact Nat.lt_succ_of_le (hbelow.depth_le c hc)

end Steps

/-- **Every run is bracketed**, and the open starts show the stack in the end. -/
theorem bracketed_watched : ∀ (ns : List Notification) {t : Tracer}
    {starts : List (Operation × Nat)}, Shows starts t.stack →
    ∃ after, Bracketed starts (t.watched ns) after ∧ Shows after (t.replay ns).stack
  | [], _, starts, h => ⟨starts, .nil, h⟩
  | n :: ns, ⟨a, stack⟩, starts, h => by
    obtain ⟨between, hfirst, hshows⟩ : ∃ between,
        Bracketed starts (((Tracer.mk a stack).step n).2.filter Report.isCall) between ∧
          Shows between ((Tracer.mk a stack).step n).1.stack := by
      rcases n with source | _
      · exact bracketed_start a h source
      · exact bracketed_finish a h
    obtain ⟨after, hrest, hafter⟩ := bracketed_watched ns hshows
    exact ⟨after, hfirst.append hrest, hafter⟩

/-- **What an observer is told is properly bracketed.** Wherever a run is cut, the reports so far
lead from no open starts to open starts that show the stack, and the reports behind the cut lead on
from there. -/
theorem observer_calls_bracketed (ms ns : List Notification) :
    ∃ between after, Bracketed [] (empty.watched ms) between ∧
      Shows between (empty.replay ms).stack ∧
      Bracketed between ((empty.replay ms).watched ns) after ∧
      Shows after (empty.replay (ms ++ ns)).stack := by
  have hempty : Shows [] empty.stack := .nil
  obtain ⟨between, hfirst, hbetween⟩ := bracketed_watched ms hempty
  obtain ⟨after, hrest, hafter⟩ := bracketed_watched ns hbetween
  exact ⟨between, after, hfirst, hbetween, hrest, by rw [replay_append]; exact hafter⟩

end Tracer

end CircuitTrace
