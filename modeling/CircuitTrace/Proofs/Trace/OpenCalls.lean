import CircuitTrace.Proofs.Operation.Preorder
import CircuitTrace.Proofs.Trace.CallTree

/-! # The calls that are open

Which calls are open after a run can be read off the notifications alone: a start opens a call and
an end closes the innermost one, except the outermost (`openSources`). Trees of calls that are
notified under an open call leave the open calls as they are (`foldl_openStep_forest`), and a run of
starts opens all of them (`openSources_starts`).

The entries on the stack of a tracer have come about by all that was notified, but what does not
change of them while they are open depends on the open calls only: whether they are absent, and
their headings (`map_heading_replay`). `openEntries` has the entries as they would be if nothing else
had been notified. -/

namespace CircuitTrace

theorem Operation.gate_eq_of_heading {op op' : Operation} (h : op.heading = op'.heading) :
    op.gate = op'.gate := by
  have hgate : op.heading.gate = op'.heading.gate := by rw [h]
  exact hgate

namespace Tracer

/-- The open calls after a notification. -/
def openStep (opens : List Source) : Notification → List Source
  | .start source => source :: opens
  | .finish =>
    match opens with
    | _ :: caller :: below => caller :: below
    | opens => opens

/-- **The calls that are open** after a run, the innermost first: the answers to the questions for
their metadata. -/
def openSources (ns : List Notification) : List Source := ns.foldl openStep []

theorem openSources_append (ms ns : List Notification) :
    openSources (ms ++ ns) = ns.foldl openStep (openSources ms) := by
  unfold openSources; rw [List.foldl_append]

/-! ### Trees and starts -/

mutual

/-- **A tree of calls leaves the open calls as they are**, if there is one. -/
theorem foldl_openStep_notifications : ∀ (c : CallTree) {opens : List Source}, opens ≠ [] →
    c.notifications.foldl openStep opens = opens
  | .call source inner, opens, hopens => by
    have hinner : (CallTree.forest inner).foldl openStep (source :: opens) = source :: opens :=
      foldl_openStep_forest inner (List.cons_ne_nil source opens)
    rw [CallTree.notifications, List.foldl_cons, List.foldl_append]
    show [Notification.finish].foldl openStep
      ((CallTree.forest inner).foldl openStep (source :: opens)) = opens
    rw [hinner]
    obtain ⟨caller, below, rfl⟩ := List.exists_cons_of_ne_nil hopens
    rfl

theorem foldl_openStep_forest : ∀ (cs : List CallTree) {opens : List Source}, opens ≠ [] →
    (CallTree.forest cs).foldl openStep opens = opens
  | [], _, _ => rfl
  | c :: cs, _, hopens => by
    rw [CallTree.forest, List.foldl_append, foldl_openStep_notifications c hopens,
      foldl_openStep_forest cs hopens]

end

/-- **Trees of calls that end do not show** in the calls that are open. -/
theorem openSources_insert {ms : List Notification} (h : openSources ms ≠ [])
    (cs : List CallTree) (ns : List Notification) :
    openSources (ms ++ CallTree.forest cs ++ ns) = openSources (ms ++ ns) := by
  rw [openSources_append, openSources_append, foldl_openStep_forest cs h, ← openSources_append]

/-- The notifications that open calls, the innermost of which comes first in the list. -/
def starts (opens : List Source) : List Notification := (opens.map Notification.start).reverse

theorem starts_cons (source : Source) (opens : List Source) :
    starts (source :: opens) = starts opens ++ [.start source] := by
  unfold starts
  rw [List.map_cons, List.reverse_cons]

theorem starts_append (above below : List Source) :
    starts (above ++ below) = starts below ++ starts above := by
  unfold starts
  rw [List.map_append, List.reverse_append]

theorem foldl_openStep_starts (above below : List Source) :
    (starts above).foldl openStep below = above ++ below := by
  induction above with
  | nil => rfl
  | cons source above ih => rw [starts_cons, List.foldl_append, ih]; rfl

@[simp] theorem openSources_starts (opens : List Source) : openSources (starts opens) = opens := by
  have hstarts := foldl_openStep_starts opens []
  rwa [List.append_nil] at hstarts

/-- **The calls that are open after a run stay open** in another run behind it. -/
def StayOpen (ms ns : List Notification) : Prop :=
  ∀ ks, ks <+: ns → openSources ms <:+ openSources (ms ++ ks)

theorem suffix_foldl_openStep {ns : List Notification} (h : .finish ∉ ns) (opens : List Source) :
    opens <:+ ns.foldl openStep opens := by
  induction ns generalizing opens with
  | nil => exact List.suffix_rfl
  | cons n ns ih =>
    rcases n with source | _
    · have hrest : .finish ∉ ns := fun hmem => h (List.mem_cons_of_mem _ hmem)
      exact (List.suffix_cons source opens).trans (ih hrest (source :: opens))
    · exact absurd List.mem_cons_self h

theorem stayOpen_starts (ms : List Notification) (above : List Source) :
    StayOpen ms (starts above) := by
  intro ks hks
  have hstarts : .finish ∉ starts above := by simp [starts]
  have hfinish : .finish ∉ ks := fun hmem => hstarts (hks.subset hmem)
  rw [openSources_append]
  exact suffix_foldl_openStep hfinish (openSources ms)

/-! ### Entries -/

/-- **The entries of open calls** if nothing else has been notified, the innermost first. -/
def openEntries : List Source → List (Option Operation)
  | [] => []
  | source :: below =>
    (opened (openEntries below).head?.join .empty source).1 :: openEntries below

@[simp] theorem length_openEntries (opens : List Source) :
    (openEntries opens).length = opens.length := by
  induction opens with
  | nil => rfl
  | cons source below ih => rw [openEntries, List.length_cons, List.length_cons, ih]

/-- The outermost entries are those of the outermost calls. -/
theorem exists_suffix_of_suffix_openEntries {entries : List (Option Operation)}
    (h : entries <:+ openEntries opens) :
    ∃ above below, opens = above ++ below ∧ openEntries below = entries := by
  induction opens with
  | nil => exact ⟨[], [], rfl, (List.suffix_nil.mp h).symm⟩
  | cons source opens ih =>
    rw [openEntries, List.suffix_cons_iff] at h
    rcases h with rfl | h
    · exact ⟨[], source :: opens, rfl, rfl⟩
    · obtain ⟨above, below, rfl, hentries⟩ := ih h
      exact ⟨source :: above, below, rfl, hentries⟩

theorem measures_map_heading (entry : Option Operation) :
    measures (entry.map Operation.heading) = measures entry := by
  cases entry <;> rfl

/-- The heading of an entry depends on the call and on whether its caller is a measurement. -/
theorem map_heading_opened {caller caller' : Option Operation}
    (h : measures caller = measures caller') (a a' : Allocator) (source : Source) :
    (opened caller a source).1.map Operation.heading =
      (opened caller' a' source).1.map Operation.heading := by
  rcases source with reason | _ | m
  · rfl
  · rfl
  · unfold opened
    simp only [h]
    split_ifs <;> rfl

theorem map_heading_attach (caller call : Option Operation) :
    (attach caller call).map Operation.heading = caller.map Operation.heading := by
  rcases caller with _ | op
  · rfl
  · rcases call with _ | c
    · rfl
    · simp only [attach]
      split_ifs <;> rfl

/-- **The tracer's stack shows the open calls**: entry by entry it has the headings of theirs. -/
def ShowsOpen (t : Tracer) (opens : List Source) : Prop :=
  t.stack.map (Option.map Operation.heading) =
    (openEntries opens).map (Option.map Operation.heading)

namespace ShowsOpen

variable {t : Tracer} {opens : List Source}

theorem depth_eq (h : t.ShowsOpen opens) : t.depth = opens.length := by
  have hlength := congrArg List.length h
  simpa [depth] using hlength

theorem measures_eq (h : t.ShowsOpen opens) :
    measures t.stack.head?.join = measures (openEntries opens).head?.join := by
  unfold ShowsOpen at h
  rcases hstack : t.stack with _ | ⟨entry, stack⟩ <;>
    rcases hentries : openEntries opens with _ | ⟨entry', entries⟩ <;>
    rw [hstack, hentries] at h
  · cases h
  · cases h
  · have hentry : entry.map Operation.heading = entry'.map Operation.heading :=
      (List.cons.inj h).1
    show measures entry = measures entry'
    rw [← measures_map_heading entry, hentry, measures_map_heading]

theorem step (h : t.ShowsOpen opens) (n : Notification) :
    (t.step n).1.ShowsOpen (openStep opens n) := by
  have hmeasures := h.measures_eq
  unfold ShowsOpen at h ⊢
  obtain ⟨a, stack⟩ := t
  rcases n with source | _
  · rw [Tracer.step, start_fst, openStep, openEntries, List.map_cons, List.map_cons, h]
    rw [map_heading_opened hmeasures]
  · have hlength : stack.length = opens.length := by
      simpa using congrArg List.length h
    rcases opens with _ | ⟨source, _ | ⟨caller, below⟩⟩
    · obtain rfl := List.length_eq_zero_iff.mp hlength
      rfl
    · obtain ⟨entry, rfl⟩ := List.length_eq_one_iff.mp hlength
      rw [Tracer.step, finish_singleton]
      exact h
    · rcases stack with _ | ⟨entry, _ | ⟨under, stack⟩⟩
      · simp at hlength
      · simp at hlength
      · have hunder := (List.cons.inj h).2
        rw [Tracer.step, finish_fst, List.map_cons, map_heading_attach, ← List.map_cons]
        exact hunder

theorem replay (h : t.ShowsOpen opens) (ns : List Notification) :
    (t.replay ns).ShowsOpen (ns.foldl openStep opens) := by
  induction ns generalizing t opens with
  | nil => exact h
  | cons n ns ih => exact ih (h.step n)

end ShowsOpen

/-- **What does not change of the stack depends on the open calls only.** -/
theorem showsOpen_replay (ns : List Notification) :
    (empty.replay ns).ShowsOpen (openSources ns) := by
  have hempty : empty.ShowsOpen [] := rfl
  exact hempty.replay ns

end Tracer

end CircuitTrace
