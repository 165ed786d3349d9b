import CircuitTrace.Config.Basic
import CircuitTrace.Log
import CircuitTrace.Script.Moment
import CircuitTrace.Translation.Decomposition

/-! # Translating operations

A translation walks through the trees of operations and collects the lines of a script. An operation
with a class is written as its primitives, and its calls are not looked at; one without a class is
expanded into its calls. An operation without a class and without calls is a Pauli exponential, a
marker that does nothing, or *unhandled*: its label is noted, and it is an error or a comment as the
options say.

The level of a line is that of a cursor, which moves on with every operation that is high enough in
the tree to start a new moment, and around every comment, so that a comment has a moment to itself.

A walk that is stopped keeps what it has collected. `Walk` is a translation as far as it got, with
the records it logged and with what stopped it; `Walk.andThen` goes on unless it was stopped. -/

namespace CircuitTrace

/-- A script that is being collected. -/
structure Translation where
  /-- The options. -/
  config : Config
  /-- The lines, in order. -/
  lines : List ScriptLine
  /-- The symbols that the script imports, in the order of their first use. -/
  gatesUsed : List String
  /-- The labels of the unhandled operations, in the order of their first visit. -/
  gatesErrored : List String
  /-- The level of the next line. -/
  cursor : Nat
  /-- The key of the next measurement. -/
  measurementKey : Nat
  deriving DecidableEq

/-- A text behind others, unless it is among them. -/
def noteOnce (seen : List String) (s : String) : List String :=
  if seen.contains s then seen else seen ++ [s]

/-- A walk through operations. -/
structure Walk where
  /-- The translation as far as the walk got. -/
  translation : Translation
  /-- What it logged. -/
  records : List LogRecord
  /-- What stopped it. -/
  halt : Option Halt
  deriving DecidableEq

/-- The walk goes on with another one, unless it was stopped. -/
def Walk.andThen (w : Walk) (next : Translation → Walk) : Walk :=
  match w.halt with
  | some _ => w
  | none =>
    let v := next w.translation
    { v with records := w.records ++ v.records }

namespace Translation

/-- A translation that has not begun. -/
def new (config : Config) : Translation := ⟨config, [], [], [], 0, 0⟩

/-- The key of the next measurement after an instruction. -/
def nextKey (key : Nat) : Instruction → Nat
  | .measure _ _ => key + 1
  | _ => key

/-- Writes a line. A comment gets a level of its own. -/
def write (t : Translation) (p : Primitive) : Translation :=
  match p.instruction.symbol? with
  | none =>
    { t with
      lines := t.lines ++ [⟨p, t.cursor + 1⟩]
      cursor := t.cursor + 2
      measurementKey := nextKey t.measurementKey p.instruction }
  | some symbol =>
    { t with
      lines := t.lines ++ [⟨p, t.cursor⟩]
      gatesUsed := noteOnce t.gatesUsed symbol
      measurementKey := nextKey t.measurementKey p.instruction }

/-- Writes lines one after the other. -/
def writeAll (t : Translation) (ps : List Primitive) : Translation := ps.foldl write t

/-- A record of the walk for the log. -/
def record (message : String) : LogRecord := ⟨.debug, .decomposition, message⟩

/-- What is logged about an operation that is visited. -/
def visitRecords (t : Translation) (op : Operation) (depth : Nat) : List LogRecord :=
  if t.config.debug then
    let indent := String.ofList (List.replicate (2 * depth) ' ')
    [record (indent ++ op.gate), record (indent ++ op.displayArgs.getD "")]
  else []

/-- The walk reaches an operation at a depth of the tree. -/
def enter (t : Translation) (op : Operation) (depth : Nat) : Walk :=
  ⟨{ t with cursor := if depth ≤ t.config.depth then t.cursor + 1 else t.cursor },
    t.visitRecords op depth, none⟩

/-- Writes the primitives of an operation, if it has them. -/
def settle (t : Translation) : Except Halt (List Primitive) → Walk
  | .ok ps => ⟨t.writeAll ps, [], none⟩
  | .error halt => ⟨t, [], some halt⟩

/-- An operation with a class is written. -/
def decompose (t : Translation) (op : Operation) (cls : GateClass) : Walk :=
  let w := t.settle (op.classPrimitives t.measurementKey cls)
  if t.config.debug then { w with records := record cls.name :: w.records } else w

/-- An operation cannot be expressed. -/
def unhandled (t : Translation) (op : Operation) : Walk :=
  let noted := { t with gatesErrored := noteOnce t.gatesErrored op.gate }
  if t.config.strict then ⟨noted, [], some (.error (.unsupported op.gate))⟩
  else if t.config.renderUnhandled then ⟨noted.write op.unhandledPrimitive, [], none⟩
  else ⟨noted, [], none⟩

/-- An operation without a class and without calls is translated. -/
def childless (t : Translation) (op : Operation) : Walk :=
  if op.gate = phaseMarkerLabel then ⟨t, [], none⟩
  else if op.gate = exponentialLabel then t.settle op.exponential
  else t.unhandled op

mutual

/-- Translates an operation whose caller is at a depth of the tree. -/
def visit (callerDepth : Nat) (op : Operation) (t : Translation) : Walk :=
  match op with
  | op@⟨gate, _, children, _, _, _, _, _⟩ =>
    (t.enter op (callerDepth + 1)).andThen fun t =>
      match GateClass.classify gate with
      | some cls => t.decompose op cls
      | none => visitCalls (callerDepth + 1) op children t

/-- Translates the calls of an operation, or the operation itself if it has none. -/
def visitCalls (depth : Nat) (op : Operation) (children : Option (List Operation))
    (t : Translation) : Walk :=
  match children with
  | some ops => visitList depth ops t
  | none => t.childless op

/-- Translates operations one after the other, until the walk is stopped. -/
def visitList (callerDepth : Nat) (ops : List Operation) (t : Translation) : Walk :=
  match ops with
  | [] => ⟨t, [], none⟩
  | op :: ops => (visit callerDepth op t).andThen fun t => visitList callerDepth ops t

end

/-- Translates the outermost operations of a path. -/
def visitAll (t : Translation) (ops : List Operation) : Walk := visitList 0 ops t

end Translation

end CircuitTrace
