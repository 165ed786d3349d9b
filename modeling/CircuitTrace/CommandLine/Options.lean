import CircuitTrace.Config.Basic
import CircuitTrace.Text.Pieces
import CircuitTrace.Text.Word

/-! # The options of the command line

An option has a long name behind two dashes; `-o` is short for `--output`, `-V` for `--version` and
`-h` for `--help`. Some options take a value: behind an equals sign, directly behind the short name,
or as the next argument, which must not look like an option. The others are flags and take none. No
option may come twice, no value may be an empty file name, and there are no arguments besides
options.

The arguments are read from left to right. Asking for the version or for help ends the reading, and
so does the first argument that is refused. -/

namespace CircuitTrace

/-- The options of a run. -/
structure Options where
  /-- The base name of the script file; without one the script is printed. -/
  output : Option String
  /-- The file with the options of the translation. -/
  config : Option String
  /-- The translation is strict. -/
  strict : Bool
  /-- What cannot be expressed is left out. -/
  noRenderUnhandled : Bool
  /-- The depth down to which every operation starts a new moment. -/
  depth : Option Nat
  /-- Every operation that is visited is logged. -/
  debug : Bool
  /-- The layout is that of a moment list. -/
  momentList : Bool
  /-- The file for the captured path. -/
  emitPath : Option String
  /-- The lines of the script are echoed during the capture. -/
  live : Bool
  deriving DecidableEq

/-- What the arguments ask for. -/
inductive Request where
  /-- A run. -/
  | run (options : Options)
  /-- The version of the program. -/
  | version
  /-- A summary of the options. -/
  | help
  /-- Nothing that can be made sense of. -/
  | refused
  deriving DecidableEq

namespace Options

/-- The options when there are no arguments. -/
def initial : Options := ⟨.none, .none, false, false, .none, false, false, .none, false⟩

/-- The number of 64 bits that a text writes: digits, perhaps behind a plus sign. -/
def number? (s : List Char) : Option Nat :=
  let digits := match s with
    | '+' :: rest => rest
    | s => s
  if digits.isEmpty then .none
  else
    match Text.asciiNumber? digits with
    | some n => if n < UInt64.size then some n else .none
    | .none => .none

/-- A flag is set that was not. -/
def flag (o : Options) (name : String) : Option Options :=
  match name with
  | "strict" => if o.strict then .none else some { o with strict := true }
  | "no-render-unhandled" =>
    if o.noRenderUnhandled then .none else some { o with noRenderUnhandled := true }
  | "debug" => if o.debug then .none else some { o with debug := true }
  | "moment-list" => if o.momentList then .none else some { o with momentList := true }
  | "live" => if o.live then .none else some { o with live := true }
  | _ => .none

/-- The option takes a value. -/
def takesValue (name : String) : Bool :=
  name = "output" || name = "config" || name = "depth" || name = "emit-path"

/-- A file name that is given for the first time. -/
def newName (old : Option String) (value : List Char) : Option (Option String) :=
  if old.isSome || value.isEmpty then .none else some (some (String.ofList value))

/-- An option gets the value that it did not have. -/
def value (o : Options) (name : String) (value : List Char) : Option Options :=
  match name with
  | "output" => (newName o.output value).map fun x => { o with output := x }
  | "config" => (newName o.config value).map fun x => { o with config := x }
  | "emit-path" => (newName o.emitPath value).map fun x => { o with emitPath := x }
  | "depth" =>
    if o.depth.isSome then .none else (number? value).map fun n => { o with depth := some n }
  | _ => .none

/-- An argument, as far as its form goes. -/
inductive Form where
  /-- A long name, with the value behind its equals sign. -/
  | long (name : String) (attached : Option (List Char))
  /-- A short name, with what stands directly behind it. -/
  | short (name : Char) (attached : List Char)
  /-- The end of the options. -/
  | theEnd
  /-- No option. -/
  | plain

/-- The form of an argument. -/
def form (argument : List Char) : Form :=
  match argument with
  | ['-', '-'] => .theEnd
  | '-' :: '-' :: rest =>
    match Text.cutFirst '=' rest with
    | some (name, attached) => .long (String.ofList name) (some attached)
    | .none => .long (String.ofList rest) .none
  | '-' :: c :: rest => .short c rest
  | _ => .plain

/-- The value behind a short name, without the equals sign that may stand there. -/
def shortValue (attached : List Char) : Option (List Char) :=
  match attached with
  | [] => .none
  | '=' :: rest => some rest
  | rest => some rest

/-- What an option says on its own: the option with a value, the option that waits for one, a flag
or a request. -/
inductive Saying where
  /-- The option has its value. -/
  | given (name : String) (value : List Char)
  /-- The value is the next argument. -/
  | awaited (name : String)
  /-- A flag. -/
  | flagged (name : String)
  /-- A request that ends the reading. -/
  | asked (request : Request)
  /-- No option is left. -/
  | ended

/-- What an argument says. -/
def saying (argument : List Char) : Saying :=
  match form argument with
  | .long "version" .none => .asked .version
  | .long "help" .none => .asked .help
  | .long name .none => if takesValue name then .awaited name else .flagged name
  | .long name (some attached) =>
    if takesValue name then .given name attached else .asked .refused
  | .short 'V' _ => .asked .version
  | .short 'h' _ => .asked .help
  | .short 'o' attached =>
    match shortValue attached with
    | some value => .given "output" value
    | .none => .awaited "output"
  | .short _ _ => .asked .refused
  | .theEnd => .ended
  | .plain => .asked .refused

/-- The argument may be the value of the option in front of it. -/
def isValue (argument : List Char) : Bool :=
  match form argument with
  | .plain => true
  | _ => false

/-- Reads the arguments behind those that gave the options so far. -/
def read (o : Options) : List String → Request
  | [] => .run o
  | argument :: rest =>
    match saying argument.toList with
    | .given name value =>
      match o.value name value with
      | some o => read o rest
      | .none => .refused
    | .flagged name =>
      match o.flag name with
      | some o => read o rest
      | .none => .refused
    | .awaited name =>
      match rest with
      | [] => .refused
      | next :: rest =>
        if isValue next.toList then
          match o.value name next.toList with
          | some o => read o rest
          | .none => .refused
        else .refused
    | .asked request => request
    | .ended => if rest.isEmpty then .run o else .refused

/-- The options of the translation, those of a file changed by those of the command line. -/
def configure (o : Options) (c : Config) : Config where
  strict := c.strict || o.strict
  renderUnhandled := c.renderUnhandled && !o.noRenderUnhandled
  depth := o.depth.getD c.depth
  debug := c.debug || o.debug
  dialect := if o.momentList then .momentList else c.dialect

end Options

end CircuitTrace
