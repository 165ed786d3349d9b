/-! # Log records

What a run has to say besides its results. Every record has a level and the channel of the part of
the run that it comes from; a reader of the log chooses the levels that are shown. -/

namespace CircuitTrace

/-- The importance of a record. -/
inductive LogLevel where
  /-- Every step. -/
  | trace
  /-- What helps to understand a result. -/
  | debug
  /-- What a user wants to know. -/
  | info
  /-- What a user should look into. -/
  | warn
  deriving DecidableEq

namespace LogLevel

/-- The name of a level. -/
def name : LogLevel → String
  | trace => "TRACE"
  | debug => "DEBUG"
  | info => "INFO"
  | warn => "WARN"

/-- The place of a level in the order of importance. -/
def rank : LogLevel → Nat
  | trace => 0
  | debug => 1
  | info => 2
  | warn => 3

end LogLevel

/-- The part of a run that a record comes from. -/
inductive LogChannel where
  /-- The capture of a trace. -/
  | capture
  /-- The decomposition of operations. -/
  | decomposition
  /-- The translation of a whole path. -/
  | translation
  /-- The translation of a trace that is being captured. -/
  | live
  /-- The program around them. -/
  | program
  deriving DecidableEq

/-- The name of a channel. -/
def LogChannel.name : LogChannel → String
  | capture => "tracer::execution_path_tracer"
  | decomposition => "tracer_cirq::decompose"
  | translation => "tracer_cirq"
  | live => "tracer_cirq::live"
  | program => "trace2cirq"

/-- A record of the log. -/
structure LogRecord where
  /-- The importance of the record. -/
  level : LogLevel
  /-- The part of the run that it comes from. -/
  channel : LogChannel
  /-- What it says. -/
  message : String
  deriving DecidableEq

/-- The record on one line, with all of its parts. -/
def LogRecord.line (r : LogRecord) : String :=
  r.level.name ++ " " ++ r.channel.name ++ ": " ++ r.message

end CircuitTrace
