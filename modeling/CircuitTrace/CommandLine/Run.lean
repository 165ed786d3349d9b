import CircuitTrace.CommandLine.Options
import CircuitTrace.Config.Json
import CircuitTrace.Files.Output
import CircuitTrace.Live.Session
import CircuitTrace.Notification.Json
import CircuitTrace.Script.Layout
import CircuitTrace.Text.Control

/-! # A run of the program

A run reads its options from a file, replays the recording that comes in, writes the captured path
to a file if it is asked to, translates the path, and prints the script or writes it to a file. What
it has to say on the way goes to the log, together with the lines that are echoed during the
capture.

The files are those of a `Disk` and the recording is read by an action, so that a run makes sense
over a directory tree as well as on a machine.

A run ends with an exit code: 0 if all went well, 1 after an error, 2 if the arguments are refused
and 101 if an operation breaks the contract of the translation. -/

namespace CircuitTrace

/-- How a run ended. -/
structure Outcome where
  /-- The exit code. -/
  code : Nat
  /-- What was printed. -/
  stdout : String
  /-- What was shown of the log. -/
  stderr : String
  deriving DecidableEq

namespace CommandLine

/-- The name and the version of the program. -/
def versionText : String := "tracer_cirq 0.2.1\n"

/-- A summary of the options. -/
def helpText : String :=
  "Replay a recorded operation trace from stdin and translate it to a script\n\n" ++
  "Usage: trace2cirq [OPTIONS]\n\n" ++
  "Options:\n" ++
  "  -o, --output <OUTPUT>        Write the script to <OUTPUT>.py instead of stdout\n" ++
  "      --config <CONFIG>        JSON file with translation options\n" ++
  "      --strict                 Fail on operations without primitive gates\n" ++
  "      --no-render-unhandled    Drop operations without primitive gates\n" ++
  "      --depth <DEPTH>          Start a moment for every operation at this depth or above\n" ++
  "      --debug                  Log every visited operation\n" ++
  "      --moment-list            Emit a function that builds the circuit\n" ++
  "      --emit-path <EMIT_PATH>  Also write the traced execution path as JSON\n" ++
  "      --live                   Echo supported gates while the trace is replayed\n" ++
  "  -h, --help                   Print help\n" ++
  "  -V, --version                Print version\n"

/-- The name of a level, followed by as many spaces as it is shorter than the longest one. -/
def paddedLevel (level : LogLevel) : String :=
  level.name ++ String.ofList (List.replicate (5 - level.name.length) ' ')

/-- A record as it is shown: the lines of its message behind the first one are indented. The log is
read without a screen, so it has no control sequences. -/
def recordText (r : LogRecord) : String :=
  let message := (Text.pieces '\n' r.message.toList).map String.ofList
  Text.withoutControls <|
    "[" ++ paddedLevel r.level ++ " " ++ r.channel.name ++ "] " ++
      String.intercalate "\n    " message ++ "\n"

/-- What an entry adds to the log, if records below a level are not shown. An echoed line is shown
as it is. -/
def entryText (least : LogLevel) : Entry → String
  | .logged r => if least.rank ≤ r.level.rank then recordText r else ""
  | .echoed line => line ++ "\n"

/-- The least level of the records that are shown. -/
def leastLevel (c : Config) : LogLevel := if c.debug then .debug else .info

/-- The log of a run so far, as it is shown. -/
abbrev Shown := String

/-- A record of the program itself. -/
def note (level : LogLevel) (message : String) : Entry := .logged ⟨level, .program, message⟩

/-- What entries add to the log of a run. -/
def entriesText (config : Config) (entries : List Entry) : Shown :=
  String.join (entries.map (entryText (leastLevel config)))

/-- The end of a run with an error. -/
def failed (shown : Shown) (error : String) : Outcome :=
  ⟨1, "", shown ++ "Error: " ++ error ++ "\n"⟩

/-- The log at the beginning of a line. -/
def freshLine (shown : Shown) : Shown :=
  if shown.toList.getLast?.getD '\n' = '\n' then shown else shown ++ "\n"

/-- The end of a run by a broken contract, which is reported on a line of its own. -/
def brokenOff (shown : Shown) (b : Breach) : Outcome :=
  ⟨101, "", freshLine shown ++ "panic: " ++ b.headline ++ "\n"⟩

/-- The captured path, or how the run ended during the capture. -/
structure Capture where
  /-- The log so far. -/
  shown : Shown
  /-- The path. -/
  path : Except Outcome ExecutionPath

/-- Replays a recording. -/
def capture (config : Config) (live : Bool) (recording : String) : Capture :=
  let (events, fault) := Event.series recording
  let session : Session := ⟨.empty, if live then some (.new config none) else none⟩
  let s := session.run (events.map Event.notification)
  let shown := entriesText config s.entries
  match s.breach, fault with
  | some b, _ => ⟨shown, .error (brokenOff shown b)⟩
  | none, some _ => ⟨shown, .error (failed shown "json")⟩
  | none, none =>
    let path := s.session.tracer.executionPath
    let warned :=
      if 1 < s.session.tracer.depth then
        [note .warn ("Trace ended with " ++ toString (s.session.tracer.depth - 1) ++
          " unterminated operations")]
      else []
    let traced := note .info ("Traced " ++ toString path.numQubits ++ " qubits and " ++
      toString path.operations.length ++ " top-level operations")
    ⟨shown ++ entriesText config (warned ++ [traced]), .ok path⟩

variable {m : Type → Type} [Monad m]

/-- The options of the translation, or how the run ended when they were read. -/
def readConfig (disk : Disk m) (o : Options) : m (Except Outcome Config) := do
  match o.config with
  | none => return .ok (o.configure .default)
  | some name =>
    match ← disk.read name with
    | .error fault => return .error (failed "" fault.describe)
    | .ok none => return .error (failed "" "json")
    | .ok (some contents) =>
      match Config.ofText contents with
      | .error _ => return .error (failed "" "json")
      | .ok c => return .ok (o.configure c)

/-- Writes the script where the options say. -/
def deliver (disk : Disk m) (o : Options) (config : Config) (shown : Shown) (script : String) :
    m Outcome := do
  match o.output with
  | none => return ⟨0, script, shown⟩
  | some base =>
    match ← writeFile disk (scriptPath base) script with
    | some e => return failed shown e.describe
    | none =>
      return ⟨0, "", shown ++
        entriesText config [note .info ("Translation complete: " ++ scriptPath base)]⟩

/-- Translates a path and writes the script. -/
def finish (disk : Disk m) (o : Options) (config : Config) (shown : Shown) (path : ExecutionPath) :
    m Outcome := do
  let t := translate path config
  let shown := shown ++ entriesText config (t.records.map .logged)
  match t.script with
  | .error (.error e) => return failed shown e.describe
  | .error (.breach b) => return brokenOff shown b
  | .ok script => deliver disk o config shown script

/-- A run with the given options. The recording is only read when the options are there. -/
def run (disk : Disk m) (o : Options) (recording : m String) : m Outcome := do
  match ← readConfig disk o with
  | .error ended => return ended
  | .ok config =>
    let captured := capture config o.live (← recording)
    match captured.path with
    | .error ended => return ended
    | .ok path =>
      match o.emitPath with
      | none => finish disk o config captured.shown path
      | some name =>
        match ← writeExecutionPath disk name path with
        | some e => return failed captured.shown e.describe
        | none =>
          finish disk o config
            (captured.shown ++
              entriesText config [note .info ("Wrote execution path to " ++ name)])
            path

/-- A run with the given arguments. -/
def main (disk : Disk m) (arguments : List String) (recording : m String) : m Outcome := do
  match Options.initial.read arguments with
  | .run o => run disk o recording
  | .version => return ⟨0, versionText, ""⟩
  | .help => return ⟨0, helpText, ""⟩
  | .refused => return ⟨2, "", "Error: arguments\n"⟩

end CommandLine

end CircuitTrace
