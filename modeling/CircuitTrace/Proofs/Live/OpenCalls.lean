import CircuitTrace.Proofs.Live.EchoedPart
import CircuitTrace.Proofs.Live.HandledBody
import Mathlib.Tactic.TFAE

/-! # Whether calls that have ended make a difference

Whether an operation is passed over as part of a handled body is up to the handled depth at its
start (`Session.passesOver`). By then other calls may have ended, and they are not meant to count.

* `exists_hear_of_passesOver`: an operation with a class is passed over or translated;
* `passesOver_iff`: if no absent call hides what is reported around it, only the open calls count;
* `passesOver_starts`, `passesOver_hadamard`: if one does and no open operation has a class, it makes
  a difference whether a gate has been called and has ended before, in the place of the absent call;
* `passesOver_depends_on_open_tfae`: so this is exactly when calls that have ended count, and
  `exists_passesOver_ne` is a run in which they do. -/

namespace CircuitTrace

open Tracer

namespace Live

variable {l : Live} {t : Tracer} {opens : List Source}

/-! ### Runs of starts -/

/-- One more start is reported last. -/
theorem exists_watched_starts_cons (hopen : t.ShowsOpen opens) (source : Source)
    (above : List Source) :
    ∃ entry, t.watched (starts (source :: above)) =
        t.watched (starts above) ++ startReport ((above ++ opens).length + 1) entry ∧
      entry.map Operation.heading =
        (opened (openEntries (above ++ opens)).head?.join .empty source).1.map
          Operation.heading := by
  have hafter := hopen.replay (starts above)
  rw [foldl_openStep_starts] at hafter
  obtain ⟨entry, hwatched, hheading⟩ := exists_watched_start hafter source
  exact ⟨entry, by rw [starts_cons, watched_append, hwatched], hheading⟩

/-- Outside of handled bodies nothing is heard of calls without a class that start. -/
theorem ignores_starts_of_unclassified (hopen : t.ShowsOpen opens) (hl : l.handledDepth = none)
    {above : List Source} (habove : ¬ Classified (openEntries (above ++ opens))) :
    l.Ignores (t.watched (starts above)) := by
  induction above with
  | nil => exact ignores_nil l
  | cons source above ih =>
    have hrest : ¬ Classified (openEntries (above ++ opens)) := by
      rintro ⟨op, hop, hclass⟩
      exact habove ⟨op, List.mem_cons_of_mem _ hop, hclass⟩
    obtain ⟨entry, hwatched, hheading⟩ := exists_watched_starts_cons hopen source above
    rw [hwatched]
    refine (ih hrest).append ?_
    rcases entry with _ | op
    · exact ignores_nil l
    · obtain ⟨op', hop', hsame⟩ := Option.map_eq_some_iff.mp hheading.symm
      have hgate : op'.gate = op.gate := Operation.gate_eq_of_heading hsame
      have hclass : GateClass.classify op.gate = none := by
        by_contra hne
        refine habove ⟨op', ?_, ?_⟩
        · rw [List.cons_append, openEntries, hop']
          exact List.mem_cons_self
        · rw [hgate]
          exact Option.isSome_iff_ne_none.mpr hne
      refine ignores_singleton ?_
      have hout : ∀ depth, l.inHandledBody depth = false := fun depth =>
        inHandledBody_eq_false_iff.mpr fun d hd => by rw [hl] at hd; cases hd
      simp only [hear, hout, hclass, Option.isSome_none, Bool.false_eq_true, if_false, ← hl]

/-- Nothing is heard of calls that start in a handled body. -/
theorem ignores_starts_of_handled (hopen : t.ShowsOpen opens) {d : Nat}
    (hl : l.handledDepth = some d) (hd : d ≤ opens.length) (above : List Source) :
    l.Ignores (t.watched (starts above)) := by
  induction above with
  | nil => exact ignores_nil l
  | cons source above ih =>
    obtain ⟨entry, hwatched, -⟩ := exists_watched_starts_cons hopen source above
    rw [hwatched]
    refine ih.append ?_
    rcases entry with _ | op
    · exact ignores_nil l
    · refine ignores_started (inHandledBody_eq_true_iff.mpr ⟨d, hl, ?_⟩) op
      rw [List.length_append]
      omega

/-! ### A call that ends -/

/-- A gate on one qubit. -/
def hadamard : CallTree := .call (.ok (some (.ofTargets "H" [0]))) []

theorem breach_emit_of_script {op : Operation} {ps : List Primitive}
    (hps : script l.translation.config l.translation.measurementKey op.leaves = .ok ps)
    (depth : Nat) : (l.emit op depth).breach = none := by
  have hfollows := Translation.visit_follows op (depth - 1) l.translation
  rw [hps] at hfollows
  obtain ⟨hhalt, -⟩ := hfollows
  unfold emit
  simp only [hhalt]

/-- **A gate that has ended leaves its depth behind**, unless it was called by a measurement. -/
theorem hearAll_hadamard (hopen : t.ShowsOpen opens) (hne : opens ≠ [])
    (hmeasures : measures (openEntries opens).head?.join = false) (hl : l.handledDepth = none) :
    (l.hearAll (t.watched hadamard.notifications)).breach = none ∧
      (l.hearAll (t.watched hadamard.notifications)).live.handledDepth = some (opens.length + 1) := by
  have hdepth := hopen.depth_eq
  have htop := hopen.measures_eq
  rw [hmeasures] at htop
  obtain ⟨a, _ | ⟨top, stack⟩⟩ := t
  · exact absurd (List.length_eq_zero_iff.mp hdepth.symm) hne
  · have hlength : stack.length + 2 = opens.length + 1 := congrArg Nat.succ hdepth
    have hcaller : measures top = false := htop
    set m : Metadata := .ofTargets "H" [0] with hm
    have hopened : opened top a (.ok (some m)) = (some (m.described a), m.registered a) := by
      simp [opened, hcaller, hm, Metadata.lacksTarget, Metadata.ofTargets]
    have hwatched : (Tracer.mk a (top :: stack)).watched hadamard.notifications =
        [.started (m.described a) (opens.length + 1), .ended (m.described a) (opens.length + 1)] := by
      rw [CallTree.watched_notifications, hadamard, CallTree.calls, hopened, hlength]
      rfl
    have hclass : GateClass.classify (m.described a).gate = some .passThrough := rfl
    have hout : l.inHandledBody (opens.length + 1) = false :=
      inHandledBody_eq_false_iff.mpr fun d hd => by rw [hl] at hd; cases hd
    set handled : Live := { l with handledDepth := some (opens.length + 1) } with hhandled
    have hhear := hear_started_of_class hout hclass
    rw [← hhandled] at hhear
    have hscript : script handled.translation.config handled.translation.measurementKey
        (m.described a).leaves =
          .ok [.gate "H" (m.described a).actedQubits (m.described a).controlQubits] := by
      rw [Operation.leaves_of_classify hclass, script_singleton,
        Operation.leafPrimitives_of_classify hclass]
      rfl
    have hbreach : (l.hear (.started (m.described a) (opens.length + 1))).breach = none := by
      rw [hhear]
      exact breach_emit_of_script hscript _
    have hgate : (m.described a).gate ≠ exponentialLabel := by
      show "H" ≠ exponentialLabel
      decide
    have hended : (l.hear (.started (m.described a) (opens.length + 1))).live.Ignores
        [.ended (m.described a) (opens.length + 1)] := ignores_ended (Or.inl hgate)
    unfold Ignores at hended
    rw [hwatched, hearAll_cons_of_ok hbreach, hended, hhear, handledDepth_emit]
    exact ⟨rfl, rfl⟩

end Live

namespace Session

/-- **Whether an operation that starts after a run is passed over** by a live translation that has
listened from the start, as part of a handled body; nothing, if the run is cut short before. -/
def passesOver (config : Config) (room : Option Nat) (ns : List Notification) : Option Bool :=
  let ended := (Session.mk .empty (some (.new config room))).run ns
  if ended.breach.isSome then none
  else ended.session.live.map fun l => l.inHandledBody (ended.session.tracer.depth + 1)

variable {config : Config} {room : Option Nat} {ns : List Notification}

theorem passesOver_eq_some_iff {b : Bool} :
    passesOver config room ns = some b ↔
      ((Live.new config room).hearAll (Tracer.empty.watched ns)).breach = none ∧
        ((Live.new config room).hearAll (Tracer.empty.watched ns)).live.inHandledBody
          ((openSources ns).length + 1) = b := by
  unfold passesOver
  obtain ⟨-, hbreach, -⟩ := run_of_watched ns .empty (Live.new config room)
  rcases hb : ((Live.new config room).hearAll (Tracer.empty.watched ns)).breach with _ | breach <;>
    rw [hb] at hbreach
  · simp [hbreach, session_run hb, (showsOpen_replay ns).depth_eq]
  · simp [hbreach]

/-- **What becomes of an operation with a class** that starts then: it is passed over, or it is
translated. -/
theorem exists_hear_of_passesOver {b : Bool} (h : passesOver config room ns = some b) {op : Operation}
    (hclass : (GateClass.classify op.gate).isSome = true) :
    ∃ l, ((Session.mk .empty (some (.new config room))).run ns).session =
        ⟨Tracer.empty.replay ns, some l⟩ ∧
      l.hear (.started op ((Tracer.empty.replay ns).depth + 1)) =
        if b then ⟨l, [], none⟩
        else { l with handledDepth := some ((Tracer.empty.replay ns).depth + 1) }.emit op
          ((Tracer.empty.replay ns).depth + 1) := by
  obtain ⟨hbreach, hin⟩ := passesOver_eq_some_iff.mp h
  rw [← (showsOpen_replay ns).depth_eq] at hin
  refine ⟨_, session_run hbreach, ?_⟩
  simp only [Live.hear, hin, hclass, if_true]

/-- **It is passed over exactly if an open operation has a class**, unless an absent call hides what
is reported around it. -/
theorem passesOver_iff {b : Bool} (h : passesOver config room ns = some b)
    (hsettled : Live.Classified (openEntries (openSources ns)) ∨
      ¬ Live.Hidden (openEntries (openSources ns))) :
    b = true ↔ Live.Classified (openEntries (openSources ns)) := by
  obtain ⟨hbreach, rfl⟩ := passesOver_eq_some_iff.mp h
  have hempty : Tracer.empty.ShowsOpen [] := rfl
  have hnone : Live.Marks (openEntries []) (Live.new config room).handledDepth := .nil
  have hmarks := Live.marks_watched hnone hempty ns hbreach
  have hiff := hmarks.inHandledBody_iff hsettled
  rw [length_openEntries] at hiff
  exact hiff

/-- **Calls without a class that only start** let the next operation be translated. -/
theorem passesOver_starts (config : Config) (room : Option Nat) {opens : List Source}
    (h : ¬ Live.Classified (openEntries opens)) :
    passesOver config room (starts opens) = some false := by
  have hempty : Tracer.empty.ShowsOpen [] := rfl
  have hquiet : (Live.new config room).Ignores (Tracer.empty.watched (starts opens)) :=
    Live.ignores_starts_of_unclassified hempty rfl (by rw [List.append_nil]; exact h)
  unfold Live.Ignores at hquiet
  rw [passesOver_eq_some_iff, hquiet]
  exact ⟨rfl, rfl⟩

/-- **A gate that ends before an absent call starts** lets everything below the absent call be passed
over: it has been handled at the depth of that call, which is not reported. -/
theorem passesOver_hadamard (config : Config) (room : Option Nat) {outer : List Source}
    (h : ¬ Live.Classified (openEntries outer)) (hne : outer ≠ [])
    (hmeasures : measures (openEntries outer).head?.join = false) {source : Source}
    (habsent : (opened (openEntries outer).head?.join .empty source).1 = none)
    (above : List Source) :
    passesOver config room
      (starts outer ++ Live.hadamard.notifications ++ starts (above ++ [source])) = some true := by
  have hempty : Tracer.empty.ShowsOpen [] := rfl
  have hquiet : (Live.new config room).Ignores (Tracer.empty.watched (starts outer)) :=
    Live.ignores_starts_of_unclassified hempty rfl (by rw [List.append_nil]; exact h)
  unfold Live.Ignores at hquiet
  have hbefore := showsOpen_replay (starts outer)
  rw [openSources_starts] at hbefore
  -- the gate is handled
  have hgate : ((Live.new config room).hearAll
      (Tracer.empty.watched (starts outer ++ Live.hadamard.notifications))).breach = none ∧
      ((Live.new config room).hearAll (Tracer.empty.watched
        (starts outer ++ Live.hadamard.notifications))).live.handledDepth =
          some (outer.length + 1) := by
    rw [watched_append, Live.hearAll_append (by rw [hquiet]), hquiet]
    exact Live.hearAll_hadamard hbefore hne hmeasures rfl
  have hafter := showsOpen_replay (starts outer ++ Live.hadamard.notifications)
  rw [openSources_append, openSources_starts, foldl_openStep_notifications Live.hadamard hne]
    at hafter
  set gate := (Live.new config room).hearAll
    (Tracer.empty.watched (starts outer ++ Live.hadamard.notifications))
  -- nothing is heard of the absent call, nor of what starts above it
  have hrest : gate.live.Ignores
      ((Tracer.empty.replay (starts outer ++ Live.hadamard.notifications)).watched
        (starts (above ++ [source]))) := by
    obtain ⟨entry, hwatched, hheading⟩ := Live.exists_watched_start hafter source
    rw [habsent] at hheading
    obtain rfl := Option.map_eq_none_iff.mp hheading
    have hsource := hafter.step (.start source)
    rw [starts_append, watched_append]
    refine Live.Ignores.append ?_
      (Live.ignores_starts_of_handled hsource hgate.2 (Nat.le_refl _) above)
    show gate.live.Ignores (Tracer.watched _ [.start source])
    rw [hwatched]
    exact Live.ignores_nil _
  have hopens : openSources
      (starts outer ++ Live.hadamard.notifications ++ starts (above ++ [source])) =
        above ++ source :: outer := by
    rw [openSources_append, openSources_append, openSources_starts,
      foldl_openStep_notifications Live.hadamard hne, foldl_openStep_starts, List.append_assoc,
      List.singleton_append]
  unfold Live.Ignores at hrest
  rw [passesOver_eq_some_iff, hopens, watched_append, Live.hearAll_append hgate.1, hrest]
  refine ⟨rfl, Live.inHandledBody_eq_true_iff.mpr ⟨_, hgate.2, ?_⟩⟩
  simp only [List.length_append, List.length_cons]
  omega

/-- **Around a hidden call a tree that has ended makes a difference**: below the caller of the hidden
call a gate is called and ends before the hidden call starts, or it is not. -/
theorem exists_passesOver_insert (config : Config) (room : Option Nat) {opens : List Source}
    (hclassified : ¬ Live.Classified (openEntries opens))
    (hhidden : Live.Hidden (openEntries opens)) :
    ∃ ms cs ns, openSources ms ≠ [] ∧ StayOpen ms ns ∧ openSources (ms ++ ns) = opens ∧
      passesOver config room (ms ++ ns) = some false ∧
      passesOver config room (ms ++ CallTree.forest cs ++ ns) = some true := by
  obtain ⟨caller, below, hsuffix, hmeasures⟩ := hhidden
  obtain ⟨above, hidden, rfl, hentries⟩ := exists_suffix_of_suffix_openEntries hsuffix
  rcases hidden with _ | ⟨source, outer⟩
  · cases hentries
  obtain ⟨habsent, houter⟩ := List.cons.inj hentries
  have hne : outer ≠ [] := by
    rintro rfl
    cases houter
  have hmeasures' : measures (openEntries outer).head?.join = false := by
    rw [houter]
    exact hmeasures
  have hclassified' : ¬ Live.Classified (openEntries outer) := by
    rintro ⟨op, hop, hclass⟩
    rw [houter] at hop
    exact hclassified ⟨op, hsuffix.subset (List.mem_cons_of_mem _ hop), hclass⟩
  have hsame : starts outer ++ starts (above ++ [source]) = starts (above ++ source :: outer) := by
    rw [← starts_append, List.append_assoc, List.singleton_append]
  have hforest : CallTree.forest [Live.hadamard] = Live.hadamard.notifications :=
    List.append_nil _
  refine ⟨starts outer, [Live.hadamard], starts (above ++ [source]), ?_, stayOpen_starts _ _, ?_,
    ?_, ?_⟩
  · rw [openSources_starts]
    exact hne
  · rw [hsame, openSources_starts]
  · rw [hsame]
    exact passesOver_starts config room hclassified
  · rw [hforest]
    exact passesOver_hadamard config room hclassified' hne hmeasures' habsent above

/-- **When what has ended makes no difference.** Let calls be open when an operation starts. The
following say the same:

1. whether the operation is passed over depends on these calls only;
2. it does not change if trees of calls that have ended are inserted or removed below a call that is
   still open;
3. an open operation has a class, or no absent call hides what is reported around it. -/
theorem passesOver_depends_on_open_tfae (config : Config) (room : Option Nat)
    (opens : List Source) :
    List.TFAE [
      ∀ ns ns' b b', openSources ns = opens → openSources ns' = opens →
        passesOver config room ns = some b → passesOver config room ns' = some b' → b = b',
      ∀ ms cs ns b b', openSources ms ≠ [] → StayOpen ms ns → openSources (ms ++ ns) = opens →
        passesOver config room (ms ++ ns) = some b →
          passesOver config room (ms ++ CallTree.forest cs ++ ns) = some b' → b = b',
      Live.Classified (openEntries opens) ∨ ¬ Live.Hidden (openEntries opens)] := by
  tfae_have 1 → 2 := by
    intro h ms cs ns b b' hms _ hopens hb hb'
    have hopens' : openSources (ms ++ CallTree.forest cs ++ ns) = opens :=
      (openSources_insert hms cs ns).trans hopens
    exact h _ _ b b' hopens hopens' hb hb'
  tfae_have 2 → 3 := by
    intro h
    by_contra hnot
    obtain ⟨hclassified, hhidden⟩ := not_or.mp hnot
    obtain ⟨ms, cs, ns, hms, hstay, hopens, hwithout, hwith⟩ :=
      exists_passesOver_insert config room hclassified (not_not.mp hhidden)
    exact absurd (h ms cs ns false true hms hstay hopens hwithout hwith) (by simp)
  tfae_have 3 → 1 := by
    intro hsettled ns ns' b b' hns hns' hb hb'
    have hiff := passesOver_iff hb (hns ▸ hsettled)
    have hiff' := passesOver_iff hb' (hns' ▸ hsettled)
    rw [hns] at hiff
    rw [hns'] at hiff'
    exact Bool.eq_iff_iff.mpr (hiff.trans hiff'.symm)
  tfae_finish

/-- **A gate that has ended may make a difference**: if it has been called before an absent call
starts, what starts in the absent call is passed over and not echoed. -/
theorem exists_passesOver_ne :
    ∃ (ms ns : List Notification) (cs : List CallTree) (next : Notification),
      ms = [.start (.ok (some (.ofTargets "Main" [])))] ∧ ns = [.start (.ok none)] ∧
      cs = [.call (.ok (some (.ofTargets "H" [0]))) []] ∧
      next = .start (.ok (some (.ofTargets "X" [0]))) ∧
      openSources ms ≠ [] ∧ StayOpen ms ns ∧
      let echoed := fun ns =>
        echoedLines ((Session.mk .empty (some (.new .default none))).run ns).entries
      passesOver .default none (ms ++ ns) = some false ∧
      echoed (ms ++ ns ++ [next]) = ["X(qubits[0])"] ∧
      passesOver .default none (ms ++ CallTree.forest cs ++ ns) = some true ∧
      echoed (ms ++ CallTree.forest cs ++ ns ++ [next]) = ["H(qubits[0])"] :=
  ⟨_, _, _, _, rfl, rfl, rfl, rfl, by simp [openSources, openStep],
    stayOpen_starts _ [.ok none], by decide +kernel, by decide +kernel, by decide +kernel,
    by decide +kernel⟩

end Session

end CircuitTrace
