import CircuitTrace.Trace.Tracer
import CircuitTrace.Translation.Basic

/-! # Translation of a trace that is being captured

A live translation listens to the reports of a tracer and echoes the lines of the script as soon as
they are known. An operation with a class is translated when it starts, and what is reported below
it is its *handled body*, which is passed over. A Pauli exponential may still turn out to have
calls, so it is translated when it ends without any. Nothing else is echoed, and the options are
never strict.

The depth of the last handled operation is kept until an operation starts that is not below it
(`Live.inHandledBody`).

The lines go to a sink that may take only so many of them. `Live.hear` listens to one report and
says what is put out meanwhile, log records and echoed lines in their order; it is cut short when an
operation breaks the contract of the translation. -/

namespace CircuitTrace

/-- Something that a run puts out on the way. -/
inductive Entry where
  /-- A record for the log. -/
  | logged (record : LogRecord)
  /-- A line of the script. -/
  | echoed (line : String)
  deriving DecidableEq

/-- A translation of a trace that is being captured. -/
structure Live where
  /-- The translation. -/
  translation : Translation
  /-- The number of lines that have been passed to the sink. -/
  written : Nat
  /-- The depth of the last operation whose body is handled. -/
  handledDepth : Option Nat
  /-- The number of lines that the sink still takes, if it does not take all. -/
  sinkRoom : Option Nat
  deriving DecidableEq

/-- What a live translation makes of what it hears. -/
structure Heard where
  /-- The live translation afterwards. -/
  live : Live
  /-- What it puts out. -/
  entries : List Entry
  /-- The operation that breaks the contract, if there is one. -/
  breach : Option Breach
  deriving DecidableEq

namespace Live

/-- A live translation that has not begun. -/
def new (config : Config) (sinkRoom : Option Nat) : Live :=
  ⟨.new { config with strict := false }, 0, none, sinkRoom⟩

/-- An operation at a depth lies in a handled body. -/
def inHandledBody (l : Live) (depth : Nat) : Bool :=
  match l.handledDepth with
  | some handled => handled < depth
  | none => false

/-- A warning for the log. -/
def warning (message : String) : Entry := .logged ⟨.warn, .live, message⟩

/-- Passes the new lines to the sink. Lines that it does not take are not tried again. -/
def echo (l : Live) : Live × List Entry :=
  let fresh := (l.translation.lines.drop l.written).map ScriptLine.render
  let passed := { l with written := l.translation.lines.length }
  match l.sinkRoom with
  | none => (passed, fresh.map .echoed)
  | some room =>
    ({ passed with sinkRoom := some (room - fresh.length) },
      (fresh.take room).map .echoed ++
        if room < fresh.length then [warning "Cannot echo live translation: sink full"] else [])

/-- Translates an operation at a depth and echoes its lines. -/
def emit (l : Live) (op : Operation) (depth : Nat) : Heard :=
  let w := Translation.visit (depth - 1) op l.translation
  let l := { l with translation := w.translation }
  let logged := w.records.map .logged
  match w.halt with
  | some (.breach b) => ⟨l, logged, some b⟩
  | some (.error e) =>
    let warned := warning ("Live translation of " ++ op.gate ++ " failed: " ++ e.message)
    ⟨l, logged ++ [warned], none⟩
  | none =>
    let (l, echoed) := l.echo
    ⟨l, logged ++ echoed, none⟩

/-- Listens to a report. -/
def hear (l : Live) : Report → Heard
  | .logged r => ⟨l, [.logged r], none⟩
  | .started op depth =>
    if l.inHandledBody depth then ⟨l, [], none⟩
    else if (GateClass.classify op.gate).isSome then
      emit { l with handledDepth := some depth } op depth
    else ⟨{ l with handledDepth := none }, [], none⟩
  | .ended op depth =>
    if op.gate = exponentialLabel && !op.hasChildren && !l.inHandledBody depth then l.emit op depth
    else ⟨l, [], none⟩

/-- Listens to reports one after the other, until the contract is broken. -/
def hearAll (l : Live) : List Report → Heard
  | [] => ⟨l, [], none⟩
  | r :: rs =>
    let h := l.hear r
    match h.breach with
    | some _ => h
    | none =>
      let more := h.live.hearAll rs
      { more with entries := h.entries ++ more.entries }

end Live

end CircuitTrace
