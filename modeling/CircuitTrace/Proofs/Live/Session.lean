import CircuitTrace.Live.Session
import CircuitTrace.Proofs.Trace.Step

/-! # What a session comes to

A live translation hears reports one after the other until the contract is broken, so it hears two
lists of them as one (`Live.hearAll_append_eq`). The log records among them are put out and change
nothing (`Live.hearAll_filter`).

A session therefore is what its live translation makes of the reports for an observer: what has
become of the live translation, whether the contract is broken and which lines are echoed can all be
read off `Live.hearAll` (`Session.run_of_watched`). The trace itself does not depend on the
listener, unless that breaks the session off (`Session.tracer_run`). -/

namespace CircuitTrace

/-! ### Echoed lines -/

/-- The line that an entry echoes. -/
def Entry.line? : Entry → Option String
  | .logged _ => none
  | .echoed line => some line

/-- The lines that entries echo, in order. -/
def echoedLines (es : List Entry) : List String := es.filterMap Entry.line?

@[simp] theorem echoedLines_append (es fs : List Entry) :
    echoedLines (es ++ fs) = echoedLines es ++ echoedLines fs :=
  List.filterMap_append

@[simp] theorem echoedLines_map_logged (rs : List LogRecord) :
    echoedLines (rs.map .logged) = [] := by
  unfold echoedLines
  rw [List.filterMap_map]
  exact List.filterMap_eq_nil_iff.mpr fun _ _ => rfl

@[simp] theorem echoedLines_map_echoed (lines : List String) :
    echoedLines (lines.map .echoed) = lines := by
  unfold echoedLines
  rw [List.filterMap_map]
  exact List.filterMap_some

namespace Live

/-! ### Hearing -/

theorem hearAll_cons_of_ok {l : Live} {r : Report} (h : (l.hear r).breach = none)
    (rs : List Report) :
    l.hearAll (r :: rs) =
      { (l.hear r).live.hearAll rs with
        entries := (l.hear r).entries ++ ((l.hear r).live.hearAll rs).entries } := by
  rw [hearAll]
  simp only [h]

theorem hearAll_cons_of_breach {l : Live} {r : Report} {b : Breach}
    (h : (l.hear r).breach = some b) (rs : List Report) : l.hearAll (r :: rs) = l.hear r := by
  rw [hearAll]
  simp only [h]

/-- **Two lists of reports are heard one after the other**, unless the first one breaks the
contract. -/
theorem hearAll_append_eq : ∀ (rs : List Report) (l : Live) (ss : List Report),
    l.hearAll (rs ++ ss) =
      match (l.hearAll rs).breach with
      | some _ => l.hearAll rs
      | none =>
        { (l.hearAll rs).live.hearAll ss with
          entries := (l.hearAll rs).entries ++ ((l.hearAll rs).live.hearAll ss).entries }
  | [], _, _ => rfl
  | r :: rs, l, ss => by
    rw [List.cons_append]
    rcases hr : (l.hear r).breach with _ | b
    · rw [hearAll_cons_of_ok hr, hearAll_cons_of_ok hr, hearAll_append_eq rs]
      rcases ((l.hear r).live.hearAll rs).breach with _ | b
      · simp only [List.append_assoc]
      · rfl
    · rw [hearAll_cons_of_breach hr, hearAll_cons_of_breach hr]
      simp only [hr]

theorem hearAll_append {l : Live} {rs : List Report} (h : (l.hearAll rs).breach = none)
    (ss : List Report) :
    l.hearAll (rs ++ ss) =
      { (l.hearAll rs).live.hearAll ss with
        entries := (l.hearAll rs).entries ++ ((l.hearAll rs).live.hearAll ss).entries } := by
  rw [hearAll_append_eq]
  simp only [h]

theorem hearAll_append_of_breach {l : Live} {rs : List Report} {b : Breach}
    (h : (l.hearAll rs).breach = some b) (ss : List Report) :
    l.hearAll (rs ++ ss) = l.hearAll rs := by
  rw [hearAll_append_eq]
  simp only [h]

theorem breach_of_append {l : Live} {rs ss : List Report}
    (h : (l.hearAll (rs ++ ss)).breach = none) : (l.hearAll rs).breach = none := by
  rcases hb : (l.hearAll rs).breach with _ | b
  · rfl
  · rw [hearAll_append_of_breach hb, hb] at h
    cases h

/-- **Log records change nothing** but the records that are put out. -/
theorem hearAll_filter : ∀ (rs : List Report) (l : Live),
    (l.hearAll (rs.filter Report.isCall)).live = (l.hearAll rs).live ∧
      (l.hearAll (rs.filter Report.isCall)).breach = (l.hearAll rs).breach ∧
      echoedLines (l.hearAll (rs.filter Report.isCall)).entries =
        echoedLines (l.hearAll rs).entries
  | [], _ => ⟨rfl, rfl, rfl⟩
  | r :: rs, l => by
    rcases hcall : r.isCall with _ | _
    · -- a log record is put out, which echoes nothing
      obtain ⟨record⟩ | _ | _ := r
      · have hfilter : (Report.logged record :: rs).filter Report.isCall =
            rs.filter Report.isCall := rfl
        rw [hfilter, hearAll_cons_of_ok rfl]
        exact hearAll_filter rs l
      · cases hcall
      · cases hcall
    · rw [List.filter_cons_of_pos hcall]
      rcases hr : (l.hear r).breach with _ | b
      · obtain ⟨hlive, hbreach, hlines⟩ := hearAll_filter rs (l.hear r).live
        rw [hearAll_cons_of_ok hr, hearAll_cons_of_ok hr]
        refine ⟨hlive, hbreach, ?_⟩
        simp only [echoedLines_append, hlines]
      · rw [hearAll_cons_of_breach hr, hearAll_cons_of_breach hr]
        exact ⟨rfl, rfl, rfl⟩

end Live

namespace Session

/-! ### Steps -/

/-- A notification is completed if nothing that is reported breaks the contract. -/
theorem step_of_ok {t : Tracer} {l : Live} {n : Notification}
    (h : (l.hearAll (t.step n).2).breach = none) :
    (Session.mk t (some l)).step n =
      ⟨⟨(t.step n).1, some (l.hearAll (t.step n).2).live⟩, (l.hearAll (t.step n).2).entries,
        none⟩ := by
  unfold step
  simp only [h]

theorem step_of_breach {t : Tracer} {l : Live} {n : Notification} {b : Breach}
    (h : (l.hearAll (t.step n).2).breach = some b) :
    (Session.mk t (some l)).step n =
      ⟨⟨t, some (l.hearAll (t.step n).2).live⟩, (l.hearAll (t.step n).2).entries, some b⟩ := by
  unfold step
  simp only [h]

/-! ### Runs -/

/-- Without a listener nothing breaks a session off. -/
theorem breach_run_none : ∀ (ns : List Notification) (t : Tracer),
    ((Session.mk t none).run ns).breach = none
  | [], _ => rfl
  | n :: ns, t => breach_run_none ns (t.step n).1

theorem tracer_step {s : Session} {n : Notification} (h : (s.step n).breach = none) :
    (s.step n).session.tracer = (s.tracer.step n).1 := by
  obtain ⟨t, _ | live⟩ := s
  · rfl
  · unfold step at h ⊢
    rcases hheard : (live.hearAll (t.step n).2).breach with _ | b <;>
      simp only [hheard] at h ⊢
    cases h

/-- **A listener does not change the trace**, unless it breaks the session off. -/
theorem tracer_run : ∀ (ns : List Notification) {s : Session}, (s.run ns).breach = none →
    (s.run ns).session.tracer = s.tracer.replay ns
  | [], _, _ => rfl
  | n :: ns, s, h => by
    rw [run] at h ⊢
    rcases hfirst : (s.step n).breach with _ | b <;> simp only [hfirst] at h ⊢
    · rw [tracer_run ns h, tracer_step hfirst]
      rfl
    · cases h

/-- **A session is what its live translation makes of the reports for an observer**, whether the
contract is broken or not. -/
theorem run_of_watched : ∀ (ns : List Notification) (t : Tracer) (l : Live),
    ((Session.mk t (some l)).run ns).session.live = some (l.hearAll (t.watched ns)).live ∧
      ((Session.mk t (some l)).run ns).breach = (l.hearAll (t.watched ns)).breach ∧
      echoedLines ((Session.mk t (some l)).run ns).entries =
        echoedLines (l.hearAll (t.watched ns)).entries
  | [], _, _ => ⟨rfl, rfl, rfl⟩
  | n :: ns, t, l => by
    obtain ⟨hlive, hbreach, hlines⟩ := Live.hearAll_filter (t.step n).2 l
    rw [run, Tracer.watched]
    rcases hb : (l.hearAll (t.step n).2).breach with _ | b
    · obtain ⟨hlive', hbreach', hlines'⟩ :=
        run_of_watched ns (t.step n).1 (l.hearAll (t.step n).2).live
      rw [step_of_ok hb, Live.hearAll_append (hbreach.trans hb), hlive]
      refine ⟨hlive', hbreach', ?_⟩
      simp only [echoedLines_append, hlines', hlines]
    · rw [step_of_breach hb, Live.hearAll_append_of_breach (hbreach.trans hb)]
      exact ⟨congrArg some hlive.symm, (hbreach.trans hb).symm, hlines.symm⟩

/-- A session that is not cut short ends with the trace of all notifications. -/
theorem session_run {ns : List Notification} {t : Tracer} {l : Live}
    (h : (l.hearAll (t.watched ns)).breach = none) :
    ((Session.mk t (some l)).run ns).session =
      ⟨t.replay ns, some (l.hearAll (t.watched ns)).live⟩ := by
  obtain ⟨hlive, hbreach, -⟩ := run_of_watched ns t l
  have htracer : ((Session.mk t (some l)).run ns).session.tracer = t.replay ns :=
    tracer_run ns (hbreach.trans h)
  rw [← htracer, ← hlive]

end Session

end CircuitTrace
