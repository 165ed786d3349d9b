import CircuitTrace.Proofs.Operation.Preorder
import CircuitTrace.Proofs.Trace.Step
import Mathlib.Data.List.Forall2

/-! # What a capture keeps

An operation that ends is attached to the one below it on the stack, or it is thrown away with all
that is attached to it (`Tracer.discards`). The path of a run therefore need not hold all operations
that started, and which of them it holds depends on ends that come much later: an operation shares
the fate of the entry that has taken it in by then. That entry is found by its height, since the
stack has never been lower in between (`Tracer.Loses`).

* `loses_cons`: what one notification does to the entry at a height;
* `Accounts.replay`: from any state, what a run leaves accounts for what is not lost of the entries
  on the stack, followed by what is not lost of the operations that start in the run
  (`Tracer.kept`), in every sense that capturing respects (`Tracer.Accounts`);
* `preorder_executionPath`: a path lists the operations that are kept, in the order of their starts.
-/

namespace CircuitTrace

namespace Tracer

/-- **The next end throws the innermost operation away**: the entry below it is absent, or both are
an X under control. -/
def discards (t : Tracer) : Bool :=
  match t.stack with
  | some op :: some parent :: _ => op.isControlledX && parent.isControlledX
  | some _ :: none :: _ => true
  | _ => false

/-- **A run loses the entry at a height of the stack**: at some end the innermost operation is
thrown away, and the stack is not higher than the entry then and has not been lower before, so that
this operation is the entry or has taken it in. -/
def Loses (t : Tracer) (height : Nat) (ns : List Notification) : Prop :=
  ∃ ks rs, ns = ks ++ .finish :: rs ∧ (t.replay ks).discards = true ∧
    (t.replay ks).depth ≤ height ∧ ∀ ms, ms <+: ks → (t.replay ks).depth ≤ (t.replay ms).depth

theorem not_loses_nil (t : Tracer) (height : Nat) : ¬ t.Loses height [] := by
  rintro ⟨ks, rs, h, -⟩
  exact absurd h.symm (List.append_ne_nil_of_right_ne_nil _ (List.cons_ne_nil _ _))

/-- **What one notification does to the entry at a height.** -/
theorem loses_cons {t : Tracer} {height : Nat} {n : Notification} {ns : List Notification} :
    t.Loses height (n :: ns) ↔
      (n = .finish ∧ t.discards = true ∧ t.depth ≤ height) ∨
        (t.step n).1.Loses (min height t.depth) ns := by
  constructor
  · rintro ⟨ks, rs, hns, hdiscards, hheight, hlow⟩
    rcases ks with _ | ⟨k, ks⟩
    · have hn : n = .finish := (List.cons.inj hns).1
      exact Or.inl ⟨hn, hdiscards, hheight⟩
    · obtain ⟨rfl, rfl⟩ := List.cons.inj hns
      have hdepth := hlow [] List.nil_prefix
      refine Or.inr ⟨ks, rs, rfl, hdiscards, Nat.le_min.mpr ⟨hheight, hdepth⟩, fun ms hms => ?_⟩
      exact hlow (n :: ms) (List.cons_prefix_cons.mpr ⟨rfl, hms⟩)
  · rintro (⟨rfl, hdiscards, hheight⟩ | ⟨ks, rs, rfl, hdiscards, hheight, hlow⟩)
    · refine ⟨[], ns, rfl, hdiscards, hheight, fun ms hms => ?_⟩
      obtain rfl := List.prefix_nil.mp hms
      exact Nat.le_refl _
    · have hle : ((t.step n).1.replay ks).depth ≤ height :=
        Nat.le_trans hheight (Nat.min_le_left _ _)
      refine ⟨n :: ks, rs, rfl, hdiscards, hle, fun ms hms => ?_⟩
      rcases ms with _ | ⟨m, ms⟩
      · exact Nat.le_trans hheight (Nat.min_le_right _ _)
      · obtain ⟨rfl, hrest⟩ := List.cons_prefix_cons.mp hms
        exact hlow ms hrest

/-- Above the stack there is nothing but its innermost entry to lose. -/
theorem loses_of_depth_le {t : Tracer} {height : Nat} (h : t.depth ≤ height)
    (ns : List Notification) : t.Loses height ns ↔ t.Loses t.depth ns := by
  constructor
  · rintro ⟨ks, rs, hns, hdiscards, -, hlow⟩
    exact ⟨ks, rs, hns, hdiscards, hlow [] List.nil_prefix, hlow⟩
  · rintro ⟨ks, rs, hns, hdiscards, hdepth, hlow⟩
    exact ⟨ks, rs, hns, hdiscards, Nat.le_trans hdepth h, hlow⟩

/-- Decides whether a run loses an entry. -/
instance decidableLoses : ∀ (ns : List Notification) (t : Tracer) (height : Nat),
    Decidable (t.Loses height ns)
  | [], t, height => isFalse (not_loses_nil t height)
  | .start source :: ns, t, height =>
    have := decidableLoses ns (t.step (.start source)).1 (min height t.depth)
    decidable_of_iff ((t.step (.start source)).1.Loses (min height t.depth) ns)
      (by rw [loses_cons]; simp)
  | .finish :: ns, t, height =>
    have := decidableLoses ns (t.step .finish).1 (min height t.depth)
    decidable_of_iff ((t.discards = true ∧ t.depth ≤ height) ∨
      (t.step .finish).1.Loses (min height t.depth) ns) (by rw [loses_cons]; simp)

/-- **The operations that a run keeps**: those that start in it and are not absent, in the order of
their starts and as they are built there, without those that it loses later on. -/
def kept (t : Tracer) : List Notification → List Operation
  | [] => []
  | .start source :: ns =>
    let started := (t.step (.start source)).1
    (if started.Loses started.depth ns then [] else (t.entry source).1.toList) ++ started.kept ns
  | .finish :: ns => (t.step .finish).1.kept ns

/-- What a run keeps of the operations that are listed for each entry of the stack, the innermost
entry first. -/
def keptOf (t : Tracer) (ns : List Notification) : List (List Operation) → List Operation
  | [] => []
  | own :: below => t.keptOf ns below ++ if t.Loses (below.length + 1) ns then [] else own

theorem keptOf_nil (t : Tracer) (ledger : List (List Operation)) :
    t.keptOf [] ledger = ledger.reverse.flatten := by
  induction ledger with
  | nil => rfl
  | cons own below ih =>
    have hkept : ¬ t.Loses (below.length + 1) [] := not_loses_nil t _
    rw [keptOf, ih, if_neg hkept]
    simp

theorem keptOf_congr {t t' : Tracer} {ns ns' : List Notification} {ledger : List (List Operation)}
    (h : ∀ height ≤ ledger.length, t.Loses height ns ↔ t'.Loses height ns') :
    t.keptOf ns ledger = t'.keptOf ns' ledger := by
  induction ledger with
  | nil => rfl
  | cons own below ih =>
    have hbelow : t.keptOf ns below = t'.keptOf ns' below :=
      ih fun height hheight => h height (Nat.le_succ_of_le hheight)
    have htop : t.Loses (below.length + 1) ns ↔ t'.Loses (below.length + 1) ns' :=
      h _ (Nat.le_refl _)
    simp only [keptOf, hbelow, htop]

/-! ### Starts and ends -/

theorem loses_start {a : Allocator} {stack : List (Option Operation)} {source : Source}
    {ns : List Notification} {height : Nat} (h : height ≤ stack.length) :
    (Tracer.mk a stack).Loses height (.start source :: ns) ↔
      ((Tracer.mk a stack).step (.start source)).1.Loses height ns := by
  have hmin : min height (Tracer.mk a stack).depth = height := Nat.min_eq_left h
  rw [loses_cons, hmin]
  simp

theorem loses_finish_below {a : Allocator} {entry : Option Operation}
    {stack : List (Option Operation)} {ns : List Notification} {height : Nat}
    (h : height ≤ stack.length) :
    (Tracer.mk a (entry :: stack)).Loses height (.finish :: ns) ↔
      ((Tracer.mk a (entry :: stack)).step .finish).1.Loses height ns := by
  have hdepth : (Tracer.mk a (entry :: stack)).depth = stack.length + 1 := rfl
  have hmin : min height (Tracer.mk a (entry :: stack)).depth = height := by omega
  rw [loses_cons, hmin]
  constructor
  · rintro (⟨-, -, hle⟩ | hrest)
    · omega
    · exact hrest
  · exact Or.inr

/-- The innermost entry is lost if its end throws it away, or later with the entry below it. -/
theorem loses_finish_top {a : Allocator} {entry below : Option Operation}
    {stack : List (Option Operation)} {ns : List Notification} :
    (Tracer.mk a (entry :: below :: stack)).Loses (stack.length + 2) (.finish :: ns) ↔
      (Tracer.mk a (entry :: below :: stack)).discards = true ∨
        (Tracer.mk a (attach below entry :: stack)).Loses (stack.length + 1) ns := by
  have hdepth : (Tracer.mk a (entry :: below :: stack)).depth = stack.length + 2 := rfl
  have hafter : (Tracer.mk a (attach below entry :: stack)).depth = stack.length + 1 := rfl
  have hstep : ((Tracer.mk a (entry :: below :: stack)).step .finish).1 =
      Tracer.mk a (attach below entry :: stack) := finish_fst a entry below stack
  rw [loses_cons, hdepth, hstep, Nat.min_self, loses_of_depth_le (by omega), hafter]
  simp

/-- An end that throws away leaves the entry below as it is. -/
theorem attach_of_discards {a : Allocator} {entry below : Option Operation}
    {stack : List (Option Operation)}
    (h : (Tracer.mk a (entry :: below :: stack)).discards = true) : attach below entry = below := by
  rcases entry with _ | op <;> rcases below with _ | parent
  · rfl
  · rfl
  · rfl
  · have hboth : (parent.isControlledX && op.isControlledX) = true := by
      rw [Bool.and_comm]
      exact h
    simp only [attach, hboth, if_true]

/-- **An end moves what is listed for the innermost entry down or throws it away.** -/
theorem keptOf_finish {a : Allocator} {entry below : Option Operation}
    {stack : List (Option Operation)} {ns : List Notification} {own under : List Operation}
    {ledger : List (List Operation)} (hlen : ledger.length = stack.length) :
    (Tracer.mk a (entry :: below :: stack)).keptOf (.finish :: ns) (own :: under :: ledger) =
      (Tracer.mk a (attach below entry :: stack)).keptOf ns
        ((if (Tracer.mk a (entry :: below :: stack)).discards then under else under ++ own) ::
          ledger) := by
  have hstep : ((Tracer.mk a (entry :: below :: stack)).step .finish).1 =
      Tracer.mk a (attach below entry :: stack) := finish_fst a entry below stack
  have hfate : ∀ height ≤ stack.length + 1,
      (Tracer.mk a (entry :: below :: stack)).Loses height (.finish :: ns) ↔
        (Tracer.mk a (attach below entry :: stack)).Loses height ns := by
    intro height hheight
    rw [loses_finish_below hheight, hstep]
  have hrest : (Tracer.mk a (entry :: below :: stack)).keptOf (.finish :: ns) ledger =
      (Tracer.mk a (attach below entry :: stack)).keptOf ns ledger :=
    keptOf_congr fun height hheight => hfate height (by omega)
  have htop : (Tracer.mk a (entry :: below :: stack)).Loses (stack.length + 2) (.finish :: ns) ↔
      (Tracer.mk a (entry :: below :: stack)).discards = true ∨
        (Tracer.mk a (attach below entry :: stack)).Loses (stack.length + 1) ns :=
    loses_finish_top
  simp only [keptOf, List.length_cons, hlen, hrest, hfate _ (Nat.le_refl _), htop,
    List.append_assoc]
  by_cases hlost : (Tracer.mk a (attach below entry :: stack)).Loses (stack.length + 1) ns
  · simp [hlost]
  · cases hdiscards : (Tracer.mk a (entry :: below :: stack)).discards with
    | true => simp [hlost]
    | false => simp [hlost]

/-- With less than two entries an end does nothing. -/
theorem keptOf_finish_idle {t : Tracer} {ns : List Notification} {ledger : List (List Operation)}
    (hlen : ledger.length = t.stack.length) (hstep : (t.step .finish).1 = t)
    (hdiscards : t.discards = false) : t.keptOf (.finish :: ns) ledger = t.keptOf ns ledger := by
  refine keptOf_congr fun height hheight => ?_
  have hmin : min height t.depth = height := Nat.min_eq_left (by rw [depth]; omega)
  rw [loses_cons, hstep, hdiscards, hmin]
  simp

/-- A start puts an operation without calls on the stack. -/
theorem children_entry {t : Tracer} {source : Source} {op : Operation}
    (h : (t.entry source).1 = some op) : op.children = none := by
  obtain ⟨a, stack⟩ := t
  obtain ⟨told, hentry, -⟩ := exists_entry a stack source
  rw [hentry] at h
  exact children_opened h

/-! ### Runs -/

/-- **A relation between operations and the operations as they started** that capturing respects: it
holds of an operation that has just started, of trees that stand side by side, and of a caller that
adopts a call. -/
structure Accounts (R : List Operation → List Operation → Prop) : Prop where
  nil : R [] []
  append : ∀ {ops ops' starts starts' : List Operation},
    R ops starts → R ops' starts' → R (ops ++ ops') (starts ++ starts')
  started : ∀ {op : Operation}, op.children = none → R [op] [op]
  adopt : ∀ {p c : Operation} {starts starts' : List Operation},
    R [p] starts → R [c] starts' → R [p.adopt c] (starts ++ starts')

section Accounts
variable {R : List Operation → List Operation → Prop} (hR : Accounts R)
include hR

theorem Accounts.entry (t : Tracer) (source : Source) :
    R (t.entry source).1.toList (t.entry source).1.toList := by
  cases h : (t.entry source).1 with
  | none => exact hR.nil
  | some op => exact hR.started (children_entry h)

/-- The open operations account for what is listed for their entries. -/
theorem Accounts.flatten {stack : List (Option Operation)} {ledger : List (List Operation)}
    (h : List.Forall₂ (fun entry own => R entry.toList own) stack ledger) :
    R (stack.reverse.filterMap id) ledger.reverse.flatten := by
  induction h with
  | nil => exact hR.nil
  | @cons entry own stack ledger hentry _ ih =>
    have hstack : (entry :: stack).reverse.filterMap id =
        stack.reverse.filterMap id ++ entry.toList := by
      cases entry <;> simp
    have hledger : (own :: ledger).reverse.flatten = ledger.reverse.flatten ++ own := by simp
    rw [hstack, hledger]
    exact hR.append ih hentry

/-- The entry below accounts for its own list and for that of the entry that ends, unless the end
throws this entry away. -/
theorem Accounts.attach {a : Allocator} {entry below : Option Operation}
    {stack : List (Option Operation)} {own under : List Operation} (hown : R entry.toList own)
    (hunder : R below.toList under) :
    R (attach below entry).toList
      (if (Tracer.mk a (entry :: below :: stack)).discards then under else under ++ own) := by
  cases hdiscards : (Tracer.mk a (entry :: below :: stack)).discards with
  | true =>
    rw [attach_of_discards hdiscards]
    exact hunder
  | false =>
    show R (Tracer.attach below entry).toList (under ++ own)
    rcases entry with _ | op
    · have hattach : Tracer.attach below none = below := by cases below <;> rfl
      have hboth := hR.append hunder hown
      rw [hattach]
      simpa using hboth
    · rcases below with _ | parent
      · cases hdiscards
      · have hapart : (parent.isControlledX && op.isControlledX) = false := by
          rw [Bool.and_comm]
          exact hdiscards
        simp only [Tracer.attach, hapart, Bool.false_eq_true, if_false]
        exact hR.adopt hunder hown

/-- **What a run leaves** accounts for what the run keeps: of the operations listed for the entries
of the stack, and of those that start in the run. -/
theorem Accounts.replay (ns : List Notification) (t : Tracer) (ledger : List (List Operation))
    (h : List.Forall₂ (fun entry own => R entry.toList own) t.stack ledger) :
    R (t.replay ns).executionPath.operations (t.keptOf ns ledger ++ t.kept ns) := by
  induction ns generalizing t ledger with
  | nil =>
    rw [keptOf_nil, kept, List.append_nil]
    exact hR.flatten h
  | cons n ns ih =>
    obtain ⟨a, stack⟩ := t
    rw [replay_cons]
    have hlen : ledger.length = stack.length := h.length_eq.symm
    cases n with
    | start source =>
      have hstack : ((Tracer.mk a stack).step (.start source)).1.stack =
          ((Tracer.mk a stack).entry source).1 :: stack := rfl
      have hdepth : ((Tracer.mk a stack).step (.start source)).1.depth = stack.length + 1 := rfl
      have hbelow : (Tracer.mk a stack).keptOf (.start source :: ns) ledger =
          ((Tracer.mk a stack).step (.start source)).1.keptOf ns ledger :=
        keptOf_congr fun height hheight => loses_start (by omega)
      have hrun := ih ((Tracer.mk a stack).step (.start source)).1
        (((Tracer.mk a stack).entry source).1.toList :: ledger)
        (by rw [hstack]; exact .cons (hR.entry _ _) h)
      rw [keptOf, hlen] at hrun
      rw [kept, hbelow, hdepth, ← List.append_assoc]
      exact hrun
    | finish =>
      rw [kept]
      rcases h with _ | @⟨entry, own, _, _, hentry, _ | @⟨below, under, rest, ledger, hbelow, hrest⟩⟩
      · have hstep : ((Tracer.mk a []).step .finish).1 = Tracer.mk a [] := rfl
        rw [hstep, keptOf_finish_idle rfl hstep rfl]
        exact ih _ _ .nil
      · have hstep : ((Tracer.mk a [entry]).step .finish).1 = Tracer.mk a [entry] :=
          congrArg Prod.fst (finish_singleton a entry)
        have hdiscards : (Tracer.mk a [entry]).discards = false := by cases entry <;> rfl
        rw [hstep, keptOf_finish_idle rfl hstep hdiscards]
        exact ih _ _ (.cons hentry .nil)
      · have hstep : ((Tracer.mk a (entry :: below :: rest)).step .finish).1 =
            Tracer.mk a (Tracer.attach below entry :: rest) := finish_fst a entry below rest
        have hlen' : ledger.length = rest.length := hrest.length_eq.symm
        rw [hstep, keptOf_finish hlen']
        exact ih _ _ (.cons (hR.attach hentry hbelow) hrest)

end Accounts

/-! ### The order of the operations -/

/-- The operations of a path stand for those that are kept by their headings. -/
theorem accounts_heading : Accounts fun ops starts =>
    (Operation.preorderAll ops).map Operation.heading = starts.map Operation.heading where
  nil := rfl
  append {ops ops' starts starts'} h h' := by
    rw [Operation.preorderAll_append, List.map_append, List.map_append, h, h']
  started {op} h := by
    rw [Operation.preorderAll_cons, Operation.preorder_of_childless h]
    rfl
  adopt {p c starts starts'} h h' := by
    simp only [Operation.preorderAll_cons, Operation.preorderAll_nil, List.append_nil] at h h' ⊢
    rw [Operation.map_heading_preorder_adopt, h, h', List.map_append]

/-- The operations of stack entries that a run does not lose, those of the outermost entry first. -/
def remaining (t : Tracer) (ns : List Notification) : List (Option Operation) → List Operation
  | [] => []
  | entry :: below =>
    t.remaining ns below ++
      if t.Loses (below.length + 1) ns then [] else Operation.preorderAll entry.toList

theorem remaining_eq_keptOf (t : Tracer) (ns : List Notification)
    (stack : List (Option Operation)) :
    t.remaining ns stack =
      t.keptOf ns (stack.map fun entry => Operation.preorderAll entry.toList) := by
  induction stack with
  | nil => rfl
  | cons entry below ih => rw [remaining, ih, List.map_cons, keptOf, List.length_map]

/-- **What a run leaves**: the operations of the stack entries and those that start in the run, both
without what the run loses. -/
theorem preorder_replay (ns : List Notification) (t : Tracer) :
    (Operation.preorderAll (t.replay ns).executionPath.operations).map Operation.heading =
      (t.remaining ns t.stack ++ t.kept ns).map Operation.heading := by
  rw [remaining_eq_keptOf]
  refine accounts_heading.replay ns t _ ?_
  rw [List.forall₂_map_right_iff]
  exact List.forall₂_same.mpr fun entry _ => rfl

/-- **No operation is lost, repeated or moved, except where an end throws it away.** The operations
of a path, callers before their calls, are those that the run keeps, in the order of their starts;
each of them has the heading that it had when it started. -/
theorem preorder_executionPath (ns : List Notification) :
    (Operation.preorderAll (Tracer.empty.replay ns).executionPath.operations).map
        Operation.heading =
      (Tracer.empty.kept ns).map Operation.heading := by
  have hrun := preorder_replay ns Tracer.empty
  have hempty : Tracer.empty.remaining ns Tracer.empty.stack = [] := rfl
  rw [hempty, List.nil_append] at hrun
  exact hrun

/-- Here `X` ends above an entry of which nothing is known, and takes `Y` with it. -/
example :
    (Tracer.empty.kept
      [.start (.ok (some (.ofTargets "Main" []))), .start (.ok none),
        .start (.ok (some (.ofTargets "X" [0]))), .start (.ok (some (.ofTargets "Y" [0]))),
        .finish, .finish, .finish,
        .start (.ok (some (.ofTargets "H" [1])))]).map Operation.gate = ["Main", "H"] := by
  decide +kernel

end Tracer

end CircuitTrace
