import CircuitTrace.Proofs.Live.Echo
import CircuitTrace.Proofs.Trace.OpenCalls
import Mathlib.Tactic.ByContra

/-! # The handled depth

An operation that starts is passed over if it is deeper than the last operation that was handled.
That depth is kept when the handled operation has ended, and what is reported next is to set it
right. An absent operation is not reported, so below it the depth may be out of date.

* `Marks`: what the handled depth says about the open calls, as long as a run is not cut short;
* `Marks.started`, `Marks.ended`: what is reported at a start and at an end keeps it up, and so does
  every run (`marks_watched`);
* `Marks.inHandledBody_iff`: an operation that starts is passed over exactly if an open operation has
  a class, unless an absent call is open that hides what is reported around it (`Hidden`). -/

namespace CircuitTrace

open Tracer

namespace Live

variable {l : Live} {depth : Nat}

/-! ### The handled depth -/

theorem handledDepth_emit (l : Live) (op : Operation) (depth : Nat) :
    (l.emit op depth).live.handledDepth = l.handledDepth := by
  unfold emit
  simp only
  rcases (Translation.visit (depth - 1) op l.translation).halt with _ | _ | _
  · obtain ⟨t, written, handled, _ | room⟩ := l
    · rfl
    · rfl
  · rfl
  · rfl

/-- **A start sets the handled depth**, unless it is passed over. -/
theorem handledDepth_hear_started (l : Live) (op : Operation) (depth : Nat) :
    (l.hear (.started op depth)).live.handledDepth =
      if l.inHandledBody depth then l.handledDepth
      else if (GateClass.classify op.gate).isSome then some depth else none := by
  simp only [hear]
  split_ifs
  · rfl
  · rw [handledDepth_emit]
  · rfl

/-- An end leaves it alone. -/
theorem handledDepth_hear_ended (l : Live) (op : Operation) (depth : Nat) :
    (l.hear (.ended op depth)).live.handledDepth = l.handledDepth := by
  simp only [hear]
  split_ifs
  · exact handledDepth_emit l op depth
  · rfl

theorem live_hearAll_singleton (l : Live) (r : Report) :
    (l.hearAll [r]).live = (l.hear r).live := by
  rcases hr : (l.hear r).breach with _ | b
  · rw [hearAll_cons_of_ok hr]
    rfl
  · rw [hearAll_cons_of_breach hr]

theorem inHandledBody_eq_true_iff :
    l.inHandledBody depth = true ↔ ∃ d, l.handledDepth = some d ∧ d < depth := by
  unfold inHandledBody
  cases l.handledDepth <;> simp

theorem inHandledBody_eq_false_iff :
    l.inHandledBody depth = false ↔ ∀ d, l.handledDepth = some d → depth ≤ d := by
  unfold inHandledBody
  cases l.handledDepth <;> simp

/-! ### Marks -/

/-- An open operation has a class. -/
def Classified (entries : List (Option Operation)) : Prop :=
  ∃ op, some op ∈ entries ∧ (GateClass.classify op.gate).isSome = true

/-- **An absent call hides** what is reported around it: it is neither the outermost call nor a
direct call of a measurement. -/
def Hidden (entries : List (Option Operation)) : Prop :=
  ∃ caller below, none :: caller :: below <:+ entries ∧ measures caller = false

/-- **What the handled depth says about the open calls**, of which the outermost has depth 1. -/
structure Marks (entries : List (Option Operation)) (handled : Option Nat) : Prop where
  /-- Without open calls nothing has been handled. -/
  idle : entries = [] → handled = none
  /-- Depths start at 1. -/
  positive : handled ≠ some 0
  /-- An operation with a class is handled, or it lies in a handled body. -/
  classified : ∀ op below, some op :: below <:+ entries →
    (GateClass.classify op.gate).isSome = true → ∃ h ≤ below.length + 1, handled = some h
  /-- An operation without a class is not handled. -/
  unclassified : ∀ op below, some op :: below <:+ entries →
    GateClass.classify op.gate = none → handled ≠ some (below.length + 1)
  /-- A direct call of a measurement is not handled. -/
  measurement : ∀ op below, some op :: below <:+ entries → op.isMeasurement = true →
    handled ≠ some (below.length + 2)
  /-- The outermost call is not handled if it is absent. -/
  root : [none] <:+ entries → handled ≠ some 1

namespace Marks

variable {entries : List (Option Operation)} {handled : Option Nat}

theorem nil : Marks [] none where
  idle _ := rfl
  positive := by simp
  classified _ _ h := absurd h (by simp)
  unclassified _ _ h := absurd h (by simp)
  measurement _ _ h := absurd h (by simp)
  root h := absurd h (by simp)

/-- Calls that end leave the marks of the others alone. -/
theorem of_suffix {outer : List (Option Operation)} (h : Marks entries handled)
    (hsuffix : outer <:+ entries) (hne : outer ≠ []) : Marks outer handled where
  idle hnil := absurd hnil hne
  positive := h.positive
  classified op below hop := h.classified op below (hop.trans hsuffix)
  unclassified op below hop := h.unclassified op below (hop.trans hsuffix)
  measurement op below hop := h.measurement op below (hop.trans hsuffix)
  root hroot := h.root (hroot.trans hsuffix)

/-- The entry at a depth is the innermost one, or it lies deeper in the stack. -/
theorem suffix_cases {entry inner : Option Operation} {below : List (Option Operation)}
    (h : entry :: below <:+ inner :: entries) :
    (entry = inner ∧ below = entries) ∨
      (entry :: below <:+ entries ∧ below.length < entries.length) := by
  rcases List.suffix_cons_iff.mp h with heq | hsuffix
  · exact Or.inl (List.cons.inj heq)
  · have hlength := hsuffix.length_le
    rw [List.length_cons] at hlength
    exact Or.inr ⟨hsuffix, hlength⟩

/-- An absent call is not reported, so it leaves the handled depth as it is. -/
theorem absent (h : Marks entries handled) : Marks (none :: entries) handled where
  idle hnil := absurd hnil (List.cons_ne_nil _ _)
  positive := h.positive
  classified op below hop hclass := by
    obtain ⟨hop, -⟩ | ⟨hop, -⟩ := suffix_cases hop
    · cases hop
    · exact h.classified op below hop hclass
  unclassified op below hop hclass := by
    obtain ⟨hop, -⟩ | ⟨hop, -⟩ := suffix_cases hop
    · cases hop
    · exact h.unclassified op below hop hclass
  measurement op below hop hmeasurement := by
    obtain ⟨hop, -⟩ | ⟨hop, -⟩ := suffix_cases hop
    · cases hop
    · exact h.measurement op below hop hmeasurement
  root hroot := by
    obtain ⟨-, hnil⟩ | ⟨hroot, -⟩ := suffix_cases hroot
    · simp [h.idle hnil.symm]
    · exact h.root hroot

/-- **A start that is passed over** leaves the handled depth as it is. -/
theorem passed {d : Nat} (h : Marks entries (some d)) (hin : d ≤ entries.length)
    (op : Operation) : Marks (some op :: entries) (some d) where
  idle hnil := absurd hnil (List.cons_ne_nil _ _)
  positive := h.positive
  classified op' below hop hclass := by
    obtain ⟨-, rfl⟩ | ⟨hop, -⟩ := suffix_cases hop
    · exact ⟨d, by omega, rfl⟩
    · exact h.classified op' below hop hclass
  unclassified op' below hop hclass := by
    obtain ⟨-, rfl⟩ | ⟨hop, -⟩ := suffix_cases hop
    · intro hd
      have hdepth := Option.some.inj hd
      omega
    · exact h.unclassified op' below hop hclass
  measurement op' below hop hmeasurement := by
    obtain ⟨-, rfl⟩ | ⟨hop, -⟩ := suffix_cases hop
    · intro hd
      have hdepth := Option.some.inj hd
      omega
    · exact h.measurement op' below hop hmeasurement
  root hroot := by
    obtain ⟨hroot, -⟩ | ⟨hroot, -⟩ := suffix_cases hroot
    · cases hroot
    · exact h.root hroot

/-- **An operation with a class that is not passed over** is handled. -/
theorem handles (h : Marks entries handled) (hout : ∀ d, handled = some d → entries.length < d)
    (hmeasures : measures entries.head?.join = false) {op : Operation}
    (hop : (GateClass.classify op.gate).isSome = true) :
    Marks (some op :: entries) (some (entries.length + 1)) where
  idle hnil := absurd hnil (List.cons_ne_nil _ _)
  positive := by simp
  classified op' below hop' hclass := by
    obtain ⟨-, rfl⟩ | ⟨hop', hlt⟩ := suffix_cases hop'
    · exact ⟨below.length + 1, Nat.le_refl _, rfl⟩
    · -- an operation with a class below would be handled still
      obtain ⟨d, hd, hhandled⟩ := h.classified op' below hop' hclass
      have hdeeper := hout d hhandled
      omega
  unclassified op' below hop' hclass := by
    obtain ⟨hsame, -⟩ | ⟨-, hlt⟩ := suffix_cases hop'
    · obtain rfl := Option.some.inj hsame
      rw [hclass] at hop
      cases hop
    · intro hhandled
      have hdepth := Option.some.inj hhandled
      omega
  measurement op' below hop' hmeasurement := by
    intro hhandled
    have hdepth := Option.some.inj hhandled
    obtain ⟨-, rfl⟩ | ⟨hop', -⟩ := suffix_cases hop'
    · omega
    · -- the measurement would be the caller
      have hcaller : some op' :: below = entries :=
        hop'.eq_of_length (by rw [List.length_cons]; omega)
      rw [← hcaller] at hmeasures
      have hnot : op'.isMeasurement = false := hmeasures
      rw [hmeasurement] at hnot
      cases hnot
  root hroot := by
    obtain ⟨hroot, -⟩ | ⟨-, hlt⟩ := suffix_cases hroot
    · cases hroot
    · intro hhandled
      have hdepth := Option.some.inj hhandled
      omega

/-- **An operation without a class that is not passed over** ends the handled body. -/
theorem clears (h : Marks entries handled) (hout : ∀ d, handled = some d → entries.length < d)
    {op : Operation} (hop : GateClass.classify op.gate = none) :
    Marks (some op :: entries) none where
  idle hnil := absurd hnil (List.cons_ne_nil _ _)
  positive := by simp
  classified op' below hop' hclass := by
    obtain ⟨hsame, -⟩ | ⟨hop', hlt⟩ := suffix_cases hop'
    · obtain rfl := Option.some.inj hsame
      rw [hop] at hclass
      cases hclass
    · obtain ⟨d, hd, hhandled⟩ := h.classified op' below hop' hclass
      have hdeeper := hout d hhandled
      omega
  unclassified _ _ _ _ := by simp
  measurement _ _ _ _ := by simp
  root _ := by simp

/-- **What is reported at a start keeps the marks**, since nothing that is reported starts under a
measurement. -/
theorem started (h : Marks entries l.handledDepth) {entry : Option Operation}
    (hentry : measures entries.head?.join = true → entry = none) :
    Marks (entry :: entries)
      (l.hearAll (startReport (entries.length + 1) entry)).live.handledDepth := by
  rcases entry with _ | op
  · exact h.absent
  · have hmeasures : measures entries.head?.join = false := by
      cases hm : measures entries.head?.join with
      | false => rfl
      | true => cases hentry hm
    rw [startReport, live_hearAll_singleton, handledDepth_hear_started]
    cases hin : l.inHandledBody (entries.length + 1) with
    | true =>
      obtain ⟨d, hhandled, hd⟩ := inHandledBody_eq_true_iff.mp hin
      rw [hhandled] at h ⊢
      exact h.passed (by omega) op
    | false =>
      have hout := inHandledBody_eq_false_iff.mp hin
      cases hclass : GateClass.classify op.gate with
      | none => exact h.clears hout hclass
      | some cls => exact h.handles hout hmeasures (by rw [hclass]; rfl)

/-- What is reported at an end does not matter. -/
theorem ended (h : Marks entries l.handledDepth) (depth : Nat) (entry : Option Operation) :
    Marks entries (l.hearAll (endReport depth entry)).live.handledDepth := by
  rcases entry with _ | op
  · exact h
  · rw [endReport, live_hearAll_singleton, handledDepth_hear_ended]
    exact h

/-! ### What is passed over -/

/-- Below an operation with a class everything is passed over. -/
theorem inHandledBody_of_classified (h : Marks entries l.handledDepth)
    (hclassified : Classified entries) : l.inHandledBody (entries.length + 1) = true := by
  obtain ⟨op, hop, hclass⟩ := hclassified
  obtain ⟨above, below, rfl⟩ := List.append_of_mem hop
  obtain ⟨d, hd, hhandled⟩ := h.classified op below (List.suffix_append above _) hclass
  refine inHandledBody_eq_true_iff.mpr ⟨d, hhandled, ?_⟩
  rw [List.length_append, List.length_cons]
  omega

/-- **Nothing else is passed over**, unless an absent call hides what is reported around it. -/
theorem inHandledBody_of_not_hidden (h : Marks entries l.handledDepth)
    (hclassified : ¬ Classified entries) (hhidden : ¬ Hidden entries) :
    l.inHandledBody (entries.length + 1) = false := by
  refine inHandledBody_eq_false_iff.mpr fun d hhandled => ?_
  by_contra hd
  have hpositive : d ≠ 0 := by
    rintro rfl
    exact h.positive hhandled
  -- the entry at the handled depth, with those below it
  obtain ⟨entry, below, hsuffix, rfl⟩ : ∃ entry below,
      entry :: below <:+ entries ∧ below.length + 1 = d := by
    have hlength : (entries.drop (entries.length - d)).length = d := by
      rw [List.length_drop]
      omega
    rcases hdrop : entries.drop (entries.length - d) with _ | ⟨entry, below⟩
    · rw [hdrop] at hlength
      exact absurd hlength.symm hpositive
    · rw [hdrop] at hlength
      exact ⟨entry, below, hdrop ▸ List.drop_suffix _ _, hlength⟩
  rcases entry with _ | op
  · rcases below with _ | ⟨_ | caller, below⟩
    · exact h.root hsuffix hhandled
    · exact hhidden ⟨none, below, hsuffix, rfl⟩
    · have hcaller := (List.suffix_cons none _).trans hsuffix
      cases hmeasures : caller.isMeasurement with
      | true => exact h.measurement caller below hcaller hmeasures hhandled
      | false => exact hhidden ⟨some caller, below, hsuffix, hmeasures⟩
  · cases hclass : GateClass.classify op.gate with
    | none => exact h.unclassified op below hsuffix hclass hhandled
    | some cls => exact hclassified ⟨op, hsuffix.subset List.mem_cons_self, by rw [hclass]; rfl⟩

/-- **An operation that starts is passed over exactly if an open operation has a class**, unless an
absent call hides what is reported around it. -/
theorem inHandledBody_iff (h : Marks entries l.handledDepth)
    (hsettled : Classified entries ∨ ¬ Hidden entries) :
    l.inHandledBody (entries.length + 1) = true ↔ Classified entries := by
  refine ⟨fun hin => ?_, h.inHandledBody_of_classified⟩
  rcases hsettled with hclassified | hhidden
  · exact hclassified
  · by_contra hclassified
    rw [h.inHandledBody_of_not_hidden hclassified hhidden] at hin
    cases hin

end Marks

/-! ### Runs -/

variable {t : Tracer} {opens : List Source}

/-- An observer is told of a call that starts, as far as its entry is known. -/
theorem exists_watched_start (h : t.ShowsOpen opens) (source : Source) :
    ∃ entry, t.watched [.start source] = startReport (opens.length + 1) entry ∧
      entry.map Operation.heading =
        (opened (openEntries opens).head?.join .empty source).1.map Operation.heading := by
  refine ⟨(opened t.stack.head?.join t.registers source).1, ?_,
    map_heading_opened h.measures_eq _ _ source⟩
  obtain ⟨a, stack⟩ := t
  have hdepth : stack.length = opens.length := h.depth_eq
  rw [watched, watched, List.append_nil, step, start_calls, hdepth]

/-- The handled depth is set by the gate of an operation alone. -/
theorem handledDepth_startReport {entry entry' : Option Operation}
    (h : entry.map Operation.heading = entry'.map Operation.heading) (depth : Nat) :
    (l.hearAll (startReport depth entry)).live.handledDepth =
      (l.hearAll (startReport depth entry')).live.handledDepth := by
  rcases entry with _ | op <;> rcases entry' with _ | op'
  · rfl
  · cases h
  · cases h
  · have hgate : op.gate = op'.gate := Operation.gate_eq_of_heading (Option.some.inj h)
    simp only [startReport, live_hearAll_singleton, handledDepth_hear_started, hgate]

/-- **One notification keeps the marks.** -/
theorem Marks.step (h : Marks (openEntries opens) l.handledDepth) (hopen : t.ShowsOpen opens)
    (n : Notification) :
    Marks (openEntries (openStep opens n))
      (l.hearAll ((t.step n).2.filter Report.isCall)).live.handledDepth := by
  rcases n with source | _
  · obtain ⟨entry, hwatched, hheading⟩ := exists_watched_start hopen source
    rw [watched, watched, List.append_nil] at hwatched
    rw [hwatched, handledDepth_startReport hheading, ← length_openEntries opens]
    refine h.started fun hmeasures => ?_
    rw [opened_of_measures hmeasures]
  · obtain ⟨a, stack⟩ := t
    have hdepth : stack.length = opens.length := hopen.depth_eq
    rcases stack with _ | ⟨entry, _ | ⟨below, stack⟩⟩
    · obtain rfl := List.length_eq_zero_iff.mp hdepth.symm
      exact h
    · obtain ⟨source, rfl⟩ := List.length_eq_one_iff.mp hdepth.symm
      rw [Tracer.step, finish_singleton]
      exact h
    · rcases opens with _ | ⟨source, _ | ⟨caller, opens⟩⟩
      · cases hdepth
      · simp at hdepth
      · rw [Tracer.step, finish_calls]
        have houter : Marks (openEntries (caller :: opens)) l.handledDepth :=
          h.of_suffix (List.suffix_cons _ _) (List.cons_ne_nil _ _)
        exact houter.ended _ entry

/-- **A run that is not cut short keeps the marks.** -/
theorem marks_watched (h : Marks (openEntries opens) l.handledDepth) (hopen : t.ShowsOpen opens)
    (ns : List Notification) (hbreach : (l.hearAll (t.watched ns)).breach = none) :
    Marks (openEntries (ns.foldl openStep opens))
      (l.hearAll (t.watched ns)).live.handledDepth := by
  induction ns generalizing t l opens with
  | nil => exact h
  | cons n ns ih =>
    rw [watched] at hbreach ⊢
    have hfirst := breach_of_append hbreach
    rw [hearAll_append hfirst] at hbreach ⊢
    exact ih (h.step hopen n) (hopen.step n) hbreach

end Live

end CircuitTrace
