import CircuitTrace.Proofs.Translation.Leaves

/-! # What every walk keeps up

A walk does three things to a translation: it moves the cursor on, it writes the primitives of a
leaf, and it notes the label of an unhandled operation. A property is *stable* if none of the three
destroys it (`Translation.Stable`), and then no walk does, be it stopped or not (`Stable.visit`,
`Stable.visitAll`). A translation may be given several tasks one after the other, and it goes on
from where a stopped one has left it (`performAll`), so a stable property of a new translation holds
after every list of tasks (`Stable.performAll`).

The first such property: no line is ever taken back (`prefix_visit`, `prefix_visitList`). -/

namespace CircuitTrace

namespace Walk

theorem holds_andThen {P : Translation → Prop} {w : Walk} {next : Translation → Walk}
    (hw : P w.translation) (hnext : ∀ t, P t → P (next t).translation) :
    P (w.andThen next).translation := by
  rcases hhalt : w.halt with _ | halt
  · rw [andThen_of_ok hhalt]
    exact hnext w.translation hw
  · rw [andThen_of_halt hhalt]
    exact hw

end Walk

namespace Translation

/-- The label of an unhandled operation is noted. -/
def noting (t : Translation) (label : String) : Translation :=
  { t with gatesErrored := noteOnce t.gatesErrored label }

theorem unhandled_eq (t : Translation) (op : Operation) :
    t.unhandled op =
      if t.config.strict then ⟨t.noting op.gate, [], some (.error (.unsupported op.gate))⟩
      else if t.config.renderUnhandled then
        ⟨(t.noting op.gate).write op.unhandledPrimitive, [], none⟩
      else ⟨t.noting op.gate, [], none⟩ := rfl

/-- **A property of translations that no walk destroys.** -/
structure Stable (P : Translation → Prop) : Prop where
  /-- The cursor moves on. -/
  advance : ∀ t, P t → P { t with cursor := t.cursor + 1 }
  /-- A leaf is written. -/
  leaf : ∀ t (op : Operation) ps, op.leafPrimitives t.config t.measurementKey = .ok ps → P t →
    P (t.writeAll ps)
  /-- A label is noted. -/
  note : ∀ t label, P t → P (t.noting label)

namespace Stable

variable {P : Translation → Prop}

/-- It is enough that every single line may be written. -/
theorem of_write (advance : ∀ t, P t → P { t with cursor := t.cursor + 1 })
    (write : ∀ t p, P t → P (t.write p)) (note : ∀ t label, P t → P (t.noting label)) :
    Stable P := by
  have writeAll : ∀ (ps : List Primitive) (t : Translation), P t → P (t.writeAll ps) := by
    intro ps
    induction ps with
    | nil => exact fun _ ht => ht
    | cons p ps ih => exact fun t ht => ih (t.write p) (write t p ht)
  exact ⟨advance, fun t _ ps _ ht => writeAll ps t ht, note⟩

theorem enter (hP : Stable P) {t : Translation} (ht : P t) (op : Operation) (depth : Nat) :
    P (t.enter op depth).translation := by
  have hmoved : P { t with cursor := t.cursor + 1 } := hP.advance t ht
  unfold Translation.enter
  split_ifs
  · exact hmoved
  · exact ht

theorem settle (hP : Stable P) {t : Translation} {r : Except Halt (List Primitive)} (ht : P t)
    (op : Operation) (hr : op.leafPrimitives t.config t.measurementKey = r) :
    P (t.settle r).translation := by
  rcases r with halt | ps
  · exact ht
  · exact hP.leaf t op ps hr ht

theorem decompose (hP : Stable P) {t : Translation} {op : Operation} {cls : GateClass} (ht : P t)
    (hcls : GateClass.classify op.gate = some cls) : P (t.decompose op cls).translation := by
  rw [translation_decompose]
  exact hP.settle ht op (Operation.leafPrimitives_of_classify hcls _ _)

theorem childless (hP : Stable P) {t : Translation} {op : Operation} (ht : P t)
    (hcls : GateClass.classify op.gate = none) : P (t.childless op).translation := by
  have hleaf := fun config key => Operation.leafPrimitives_of_childless hcls config key
  have hnoted : P (t.noting op.gate) := hP.note t op.gate ht
  unfold Operation.childlessPrimitives at hleaf
  unfold Translation.childless
  rw [unhandled_eq]
  split_ifs with hmarker hexp hstrict hrender
  · exact ht
  · refine hP.settle ht op ?_
    rw [hleaf, if_neg hmarker, if_pos hexp]
  · exact hnoted
  · refine hP.leaf (t.noting op.gate) op [op.unhandledPrimitive] ?_ hnoted
    rw [hleaf, if_neg hmarker, if_neg hexp]
    exact (if_neg hstrict).trans (if_pos hrender)
  · exact hnoted

mutual

/-- **A visit keeps a stable property up.** -/
theorem visit (hP : Stable P) : ∀ (op : Operation) (callerDepth : Nat) {t : Translation}, P t →
    P (Translation.visit callerDepth op t).translation
  | ⟨gate, args, children, controlled, adjoint, measurement, controls, targets⟩, depth, t, ht => by
    rw [Translation.visit]
    refine Walk.holds_andThen (hP.enter ht _ _) fun s hs => ?_
    rcases hcls : GateClass.classify gate with _ | cls
    · exact visitCalls hP children hcls (depth + 1) hs
    · exact hP.decompose hs hcls

theorem visitCalls (hP : Stable P) {op : Operation} : ∀ (children : Option (List Operation)),
    GateClass.classify op.gate = none → ∀ (depth : Nat) {t : Translation}, P t →
    P (Translation.visitCalls depth op children t).translation
  | some ops, _, depth, _, ht => visitList hP ops depth ht
  | none, hcls, _, _, ht => hP.childless ht hcls

theorem visitList (hP : Stable P) : ∀ (ops : List Operation) (callerDepth : Nat)
    {t : Translation}, P t → P (Translation.visitList callerDepth ops t).translation
  | [], _, _, ht => ht
  | op :: ops, depth, t, ht => by
    rw [Translation.visitList]
    exact Walk.holds_andThen (visit hP op depth ht) fun s hs => visitList hP ops depth hs

end

theorem visitAll (hP : Stable P) {t : Translation} (ht : P t) (ops : List Operation) :
    P (t.visitAll ops).translation :=
  hP.visitList ops 0 ht

end Stable

/-! ### Tasks -/

/-- Something that a translation may be asked to do. -/
inductive Task where
  /-- To visit an operation whose caller is at a depth of the tree. -/
  | visit (callerDepth : Nat) (op : Operation)
  /-- To visit the outermost operations of a path. -/
  | visitAll (ops : List Operation)

/-- The walk that a task leads to. -/
def perform (t : Translation) : Task → Walk
  | .visit callerDepth op => visit callerDepth op t
  | .visitAll ops => t.visitAll ops

/-- **The translation after tasks one after the other.** A task that is stopped leaves what it has
done, and the next one goes on from there. -/
def performAll (t : Translation) (tasks : List Task) : Translation :=
  tasks.foldl (fun t task => (t.perform task).translation) t

/-- What every task keeps up, lists of tasks keep up. -/
theorem holds_performAll {P : Translation → Prop}
    (hP : ∀ (task : Task) (t : Translation), P t → P (t.perform task).translation) :
    ∀ (tasks : List Task) {t : Translation}, P t → P (t.performAll tasks)
  | [], _, ht => ht
  | task :: tasks, t, ht => holds_performAll hP tasks (hP task t ht)

/-- **A stable property holds after every list of tasks.** -/
theorem Stable.performAll {P : Translation → Prop} (hP : Stable P) (tasks : List Task)
    {t : Translation} (ht : P t) : P (t.performAll tasks) := by
  refine holds_performAll (fun task t ht => ?_) tasks ht
  cases task with
  | visit callerDepth op => exact hP.visit op callerDepth ht
  | visitAll ops => exact hP.visitAll ht ops

/-! ### Lines -/

/-- That lines have not been taken back is stable. -/
theorem stable_lines (ls : List ScriptLine) : Stable fun t => ls <+: t.lines := by
  refine Stable.of_write (fun _ h => h) (fun t p h => ?_) fun _ _ h => h
  obtain ⟨level, hlines⟩ := exists_lines_write t p
  rw [hlines]
  exact h.trans (List.prefix_append _ _)

theorem prefix_visit (callerDepth : Nat) (op : Operation) (t : Translation) :
    t.lines <+: (visit callerDepth op t).translation.lines :=
  (stable_lines t.lines).visit op callerDepth List.prefix_rfl

theorem prefix_visitList (callerDepth : Nat) (ops : List Operation) (t : Translation) :
    t.lines <+: (visitList callerDepth ops t).translation.lines :=
  (stable_lines t.lines).visitList ops callerDepth List.prefix_rfl

end Translation

end CircuitTrace
