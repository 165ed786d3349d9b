import CircuitTrace.Proofs.Trace.Step

/-! # Trees of calls

A simulator that keeps to the rules notifies a tracer of trees of calls: every call starts, its own
calls are notified in order, and it ends. What a tracer makes of such a tree can be said without a
stack: `CallTree.result` opens the entry of the call and then lets it take in the results of its own
calls one by one.

* `replay_notifications`: a tracer with a call under way computes the result of a tree and attaches
  it to that call; nothing below it changes. `watched_notifications` says what an observer is told.
* `replay_forest`: from the start, the first tree stays open, so the trees behind it become its
  calls. `tracer_computes_results` puts both together. -/

namespace CircuitTrace

/-- A call as it is notified: the answer to the question for its metadata, and its own calls. -/
inductive CallTree where
  /-- A call with its own calls, in order. -/
  | call (source : Source) (inner : List CallTree)

namespace CallTree

open Tracer

/-- The answer to the question for the metadata of the outermost call. -/
def source : CallTree → Source
  | call source _ => source

/-- The calls of the outermost call. -/
def inner : CallTree → List CallTree
  | call _ inner => inner

mutual

/-- The notifications of a call. -/
def notifications : CallTree → List Notification
  | call source inner => .start source :: (forest inner ++ [.finish])

/-- The notifications of calls one after the other. -/
def forest : List CallTree → List Notification
  | [] => []
  | c :: cs => c.notifications ++ forest cs

end

mutual

/-- **The result of a call** that starts under a caller: its entry with its own calls taken in, and
the allocator after them. -/
def result (caller : Option Operation) (a : Allocator) : CallTree → Option Operation × Allocator
  | call source inner =>
    results (opened caller a source).1 (opened caller a source).2 inner

/-- A caller after calls have been taken in one by one, and the allocator after them. -/
def results (caller : Option Operation) (a : Allocator) :
    List CallTree → Option Operation × Allocator
  | [] => (caller, a)
  | c :: cs => results (attach caller (c.result caller a).1) (c.result caller a).2 cs

end

mutual

/-- What an observer is told of a call that starts at a depth. -/
def calls (depth : Nat) (caller : Option Operation) (a : Allocator) : CallTree → List Report
  | call source inner =>
    startReport depth (opened caller a source).1 ++
      callsAll (depth + 1) (opened caller a source).1 (opened caller a source).2 inner ++
      endReport depth (results (opened caller a source).1 (opened caller a source).2 inner).1

/-- What an observer is told of calls one after the other, all starting at a depth. -/
def callsAll (depth : Nat) (caller : Option Operation) (a : Allocator) :
    List CallTree → List Report
  | [] => []
  | c :: cs =>
    c.calls depth caller a ++
      callsAll depth (attach caller (c.result caller a).1) (c.result caller a).2 cs

end

theorem results_append (caller : Option Operation) (a : Allocator) (cs ds : List CallTree) :
    results caller a (cs ++ ds) =
      results (results caller a cs).1 (results caller a cs).2 ds := by
  induction cs generalizing caller a with
  | nil => rfl
  | cons c cs ih => rw [List.cons_append, results, results, ih]

theorem callsAll_append (depth : Nat) (caller : Option Operation) (a : Allocator)
    (cs ds : List CallTree) :
    callsAll depth caller a (cs ++ ds) =
      callsAll depth caller a cs ++
        callsAll depth (results caller a cs).1 (results caller a cs).2 ds := by
  induction cs generalizing caller a with
  | nil => rfl
  | cons c cs ih => rw [List.cons_append, callsAll, callsAll, results, ih, List.append_assoc]

/-! ### Runs over trees -/

mutual

/-- **A tracer with a call under way computes the result of a tree** and attaches it to the call. -/
theorem replay_notifications (a : Allocator) (top : Option Operation)
    (below : List (Option Operation)) : ∀ c : CallTree,
    (Tracer.mk a (top :: below)).replay c.notifications =
      ⟨(c.result top a).2, attach top (c.result top a).1 :: below⟩
  | call source inner => by
    rw [notifications, replay_cons, replay_append, step, start_fst, replay_forest_under]
    exact finish_fst _ _ top below

/-- A tracer with a call under way lets it take in the results of trees. -/
theorem replay_forest_under (a : Allocator) (top : Option Operation)
    (below : List (Option Operation)) : ∀ cs : List CallTree,
    (Tracer.mk a (top :: below)).replay (forest cs) =
      ⟨(results top a cs).2, (results top a cs).1 :: below⟩
  | [] => rfl
  | c :: cs => by
    rw [forest, replay_append, replay_notifications a top below c, replay_forest_under, results]

end

mutual

/-- An observer is told what the tree says. -/
theorem watched_notifications (a : Allocator) (top : Option Operation)
    (below : List (Option Operation)) : ∀ c : CallTree,
    (Tracer.mk a (top :: below)).watched c.notifications = c.calls (below.length + 2) top a
  | call source inner => by
    rw [notifications, watched, watched_append, step, start_fst, start_calls,
      watched_forest_under, replay_forest_under, watched, step, finish_calls, watched,
      List.append_nil, calls, List.append_assoc]
    rfl

theorem watched_forest_under (a : Allocator) (top : Option Operation)
    (below : List (Option Operation)) : ∀ cs : List CallTree,
    (Tracer.mk a (top :: below)).watched (forest cs) = callsAll (below.length + 2) top a cs
  | [] => rfl
  | c :: cs => by
    rw [forest, watched_append, replay_notifications, watched_notifications a top below c,
      watched_forest_under, callsAll]

end

/-! ### Whole traces -/

/-- The call with further calls behind its own. -/
def extend (c : CallTree) (cs : List CallTree) : CallTree := call c.source (c.inner ++ cs)

theorem forest_cons (c : CallTree) (cs : List CallTree) :
    forest (c :: cs) = .start c.source :: (forest c.inner ++ .finish :: forest cs) := by
  obtain ⟨source, inner⟩ := c
  simp [forest, notifications, CallTree.source, CallTree.inner]

/-- **The first tree stays open**, so the others become its calls. -/
theorem replay_forest (c : CallTree) (cs : List CallTree) :
    Tracer.empty.replay (forest (c :: cs)) =
      ⟨((c.extend cs).result none .empty).2, [((c.extend cs).result none .empty).1]⟩ := by
  rw [forest_cons, replay_cons, start_empty, replay_append, replay_forest_under, replay_cons, step,
    finish_singleton, replay_forest_under, extend, result, results_append]

theorem watched_forest (c : CallTree) (cs : List CallTree) :
    Tracer.empty.watched (forest (c :: cs)) =
      startReport 1 (opened none .empty c.source).1 ++
        callsAll 2 (opened none .empty c.source).1 (opened none .empty c.source).2
          (c.inner ++ cs) := by
  rw [forest_cons, watched, start_empty, start_empty_calls, watched_append, replay_forest_under,
    watched_forest_under, watched, step, finish_singleton, List.filter_nil, List.nil_append,
    watched_forest_under, callsAll_append]
  rfl

/-- The path that consists of the result of a call, if it is not absent. -/
def path (c : CallTree) : ExecutionPath :=
  ⟨(c.result none .empty).2.declarations, (c.result none .empty).1.toList⟩

theorem executionPath_forest (c : CallTree) (cs : List CallTree) :
    (Tracer.empty.replay (forest (c :: cs))).executionPath = (c.extend cs).path := by
  rw [replay_forest, path, executionPath]
  rcases ((c.extend cs).result none .empty).1 with _ | op <;> rfl

/-- **The tracer computes the results of trees.** Under a call, the notifications of a tree leave
the calls below alone and attach the result of the tree to the call. From the start, they lead to
one open call, and the path is that of the first tree with the others behind its calls. -/
theorem tracer_computes_results :
    (∀ (a : Allocator) (top : Option Operation) (below : List (Option Operation)) (c : CallTree),
      (Tracer.mk a (top :: below)).replay c.notifications =
        ⟨(c.result top a).2, attach top (c.result top a).1 :: below⟩) ∧
    ∀ (c : CallTree) (cs : List CallTree),
      (Tracer.empty.replay (forest (c :: cs))).depth = 1 ∧
      (Tracer.empty.replay (forest (c :: cs))).executionPath = (c.extend cs).path ∧
      (Tracer.empty.replay (forest (c :: cs))).executionPath =
        (Tracer.empty.replay (c.extend cs).notifications).executionPath := by
  refine ⟨replay_notifications, fun c cs => ⟨?_, executionPath_forest c cs, ?_⟩⟩
  · rw [replay_forest]; rfl
  · have hone := executionPath_forest (c.extend cs) []
    rw [forest, forest, List.append_nil] at hone
    rw [executionPath_forest, hone]
    simp only [extend, source, inner, List.append_nil]

end CallTree

end CircuitTrace
