import CircuitTrace.Proofs.Translation.Noted
import Mathlib.Data.List.Induction

/-! # The tables beside the lines

Beside its lines a translation keeps three tables: the symbols that are used, the labels that cannot
be expressed, and the key of the next measurement. They describe the lines after every list of
tasks, those that were stopped included (`tables_describe_lines`).

A task is a tour of its stops (`perform_eq_tour`), so it comes to the operations that it reaches up
to the first one that fails, and that one (`Task.visited`). -/

namespace CircuitTrace

/-- Texts that are noted one after the other are those of the list without repetition. -/
theorem firstNoted_eq_eraseDups (ss : List String) : firstNoted ss = ss.eraseDups := by
  induction ss using List.reverseRecOn with
  | nil => rfl
  | append_singleton ss s ih =>
    have hlast : firstNoted (ss ++ [s]) = noteOnce ss.eraseDups s := by
      rw [← ih]
      exact List.foldl_append
    rw [hlast, List.eraseDups_append, noteOnce]
    by_cases hs : s ∈ ss <;> simp [List.removeAll, List.eraseDups_cons, hs]

namespace Translation

/-! ### What a task comes to -/

namespace Task

/-- **The operations that a task reaches** if nothing stops it, callers before their calls. -/
def reached : Task → List Operation
  | .visit _ op => op.reached
  | .visitAll ops => Operation.reachedAll ops

/-- **The operations that a task comes to**: those up to the first one that fails, and that one. -/
def visited (config : Config) (task : Task) : List Operation :=
  throughFirst (Operation.fails config) task.reached

/-- The stops of a task. -/
def stops : Task → List (Nat × Operation)
  | .visit callerDepth op => op.stops (callerDepth + 1)
  | .visitAll ops => Operation.stopsAll 1 ops

theorem map_snd_stops (task : Task) : task.stops.map Prod.snd = task.reached := by
  cases task with
  | visit callerDepth op => exact Operation.map_snd_stops op _
  | visitAll ops => exact Operation.map_snd_stopsAll ops _

end Task

/-- **A task is a tour.** -/
theorem perform_eq_tour (t : Translation) (task : Task) : t.perform task = tour task.stops t := by
  cases task with
  | visit callerDepth op => exact visit_eq_tour op callerDepth t
  | visitAll ops => exact visitAll_eq_tour t ops

/-! ### Labels -/

/-- **Tasks note the labels of the unsupported operations that they come to.** -/
theorem gatesErrored_performAll : ∀ (tasks : List Task) (t : Translation),
    (t.performAll tasks).gatesErrored =
      (Operation.unsupportedLabels (tasks.flatMap (Task.visited t.config))).foldl noteOnce
        t.gatesErrored
  | [], _ => rfl
  | task :: tasks, t => by
    have hfirst := gatesErrored_tour task.stops t
    have hrest := gatesErrored_performAll tasks (t.perform task).translation
    rw [perform_eq_tour, config_tour, hfirst, Task.map_snd_stops, ← perform_eq_tour] at hrest
    rw [List.flatMap_cons, Operation.unsupportedLabels_append, List.foldl_append]
    exact hrest

theorem LabelsNoted.performAll {t : Translation} (ht : t.LabelsNoted) (tasks : List Task) :
    (t.performAll tasks).LabelsNoted := by
  refine holds_performAll (fun task t ht => ?_) tasks ht
  rw [perform_eq_tour]
  exact ht.tour task.stops

/-- **The tables of a translation describe its lines**, whatever its tasks were and whether they
were stopped or not. The symbols that are used are those of the lines, without repetition and in the
order of their first use; the measurements have the keys from 0 on in the order of their lines, and
the next one is given the next key; the labels that are noted are those of the unsupported
operations that the tasks came to, without repetition and in the order of their first visit; and the
label of every comment for an unhandled operation is among them. -/
theorem tables_describe_lines (config : Config) (tasks : List Task) :
    let t := (new config).performAll tasks
    t.gatesUsed = (t.lines.filterMap fun l => l.primitive.instruction.symbol?).eraseDups ∧
      t.lines.filterMap (fun l => l.primitive.instruction.key?) = List.range t.measurementKey ∧
      t.gatesErrored =
        (Operation.unsupportedLabels (tasks.flatMap (Task.visited config))).eraseDups ∧
      ∀ l ∈ t.lines, ∀ label qubits, l.primitive.instruction = .unhandled label qubits →
        label ∈ t.gatesErrored := by
  intro t
  have hsymbols : t.symbols = t.lines.filterMap fun l => l.primitive.instruction.symbol? :=
    List.filterMap_map
  have hkeys : t.keys = t.lines.filterMap fun l => l.primitive.instruction.key? :=
    List.filterMap_map
  have hused : t.gatesUsed = firstNoted t.symbols := gatesUsed_performAll config tasks
  have hnumbered : t.keys = List.range t.measurementKey := stable_keys.performAll tasks rfl
  have hnew : (new config).LabelsNoted := nofun
  have hnoted : t.LabelsNoted := hnew.performAll tasks
  refine ⟨?_, ?_, ?_, fun l hl => hnoted l.primitive (List.mem_map_of_mem hl)⟩
  · rw [hused, firstNoted_eq_eraseDups, hsymbols]
  · rw [← hkeys, hnumbered]
  · rw [← firstNoted_eq_eraseDups]
    exact gatesErrored_performAll tasks (new config)

end Translation

end CircuitTrace
