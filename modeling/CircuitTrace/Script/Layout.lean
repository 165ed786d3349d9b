import CircuitTrace.Text.Pieces
import CircuitTrace.Translation.Basic

/-! # The layout of a script

A script is made of a prologue, the statements of its moments and an epilogue. In the flat layout
every moment is appended to a circuit; in the layout of a moment list the moments are collected
inside a function, which indents them, and are inserted into a circuit at the end. -/

namespace CircuitTrace

/-- Lines with a line end behind each. -/
def unlines (lines : List String) : String := String.join (lines.map (· ++ "\n"))

namespace Translation

/-- The comments at the head of a script. -/
def header (t : Translation) (numQubits : Nat) : List String :=
  ("# Qubits: " ++ toString numQubits) ::
    if t.gatesErrored.isEmpty then []
    else
      ["# Operations that did not call a primitive gate: " ++
        String.intercalate ", " t.gatesErrored]

/-- The import of the symbols of a script, if it has any. -/
def imports (t : Translation) (indent : String) : List String :=
  if t.gatesUsed.isEmpty then []
  else [indent ++ "from cirq.ops import " ++ String.intercalate ", " t.gatesUsed]

/-- The lines in front of the moments in the flat layout. -/
def flatPrologue (t : Translation) (numQubits : Nat) : List String :=
  t.header numQubits ++ ["", "import cirq", "import numpy as np"] ++ t.imports "" ++
    ["qubits = cirq.LineQubit.range(" ++ toString numQubits ++ ")", "circuit = cirq.Circuit()"]

/-- The script in the flat layout. -/
def renderFlat (t : Translation) (numQubits : Nat) : String :=
  unlines (t.flatPrologue numQubits ++ (moments t.lines).map (renderMoment "circuit"))

/-- The lines in front of the moments in the layout of a moment list. -/
def momentListPrologue (t : Translation) (numQubits : Nat) : List String :=
  t.header numQubits ++
    ["# Import build_circuit() to obtain the traced cirq circuit",
      "def build_circuit():",
      "    '''Function that builds the cirq circuit'''",
      "    import numpy as np",
      "",
      "    from cirq import GridQubit, Circuit",
      "    from cirq.circuits import InsertStrategy as strategy"] ++
    t.imports "    " ++
    ["",
      "    # initialise qubits",
      "    qubits = [GridQubit(i, 0) for i in range(" ++ toString numQubits ++ ")]",
      "",
      "    # initialise moments (vertical slices)",
      "    moments = []",
      "",
      "    # add vertical slices"]

/-- The lines behind the moments in the layout of a moment list. -/
def momentListEpilogue : List String :=
  ["",
    "    circuit = Circuit()",
    "",
    "    # cirq will flush gates left, the strategy argument prevents this",
    "    for moment in moments:",
    "        circuit.append(moment, strategy=strategy.NEW_THEN_INLINE)",
    "",
    "    return circuit",
    "",
    "",
    "if __name__ == '__main__':",
    "    circuit = build_circuit()",
    "    print(circuit)"]

/-- The physical lines of a text, each behind four spaces. -/
def indented (s : String) : List String :=
  (Text.physicalLines s.toList).map fun line => "    " ++ String.ofList line

/-- The script in the layout of a moment list. -/
def renderMomentList (t : Translation) (numQubits : Nat) : String :=
  unlines (t.momentListPrologue numQubits ++
    (moments t.lines).flatMap (fun m => indented (renderMoment "moments" m)) ++
    momentListEpilogue)

/-- The script in the layout that the options say. -/
def render (t : Translation) (numQubits : Nat) : String :=
  match t.config.dialect with
  | .flat => t.renderFlat numQubits
  | .momentList => t.renderMomentList numQubits

end Translation

/-- A path that was translated. -/
structure Translated where
  /-- What was logged. -/
  records : List LogRecord
  /-- The script, or what stopped the translation. -/
  script : Except Halt String

/-- Translates a path and lays out the script. -/
def translate (path : ExecutionPath) (config : Config) : Translated :=
  let w := (Translation.new config).visitAll path.operations
  match w.halt with
  | some halt => ⟨w.records, .error halt⟩
  | none =>
    ⟨w.records ++
        [⟨.debug, .translation, "Translated " ++ toString path.operations.length ++
          " operations into " ++ toString w.translation.lines.length ++ " lines"⟩],
      .ok (w.translation.render path.numQubits)⟩

end CircuitTrace
