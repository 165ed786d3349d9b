/-! # Options of a translation -/

namespace CircuitTrace

/-- The layout of a script. -/
inductive Dialect where
  /-- One circuit, to which every moment is appended. -/
  | flat
  /-- A function that collects the moments and inserts each of them as a moment of its own. -/
  | momentList
  deriving DecidableEq

/-- The name of a layout. -/
def Dialect.name : Dialect → String
  | flat => "flat"
  | momentList => "moment_list"

/-- The options of a translation. -/
structure Config where
  /-- An operation that cannot be expressed is an error. -/
  strict : Bool
  /-- An operation that cannot be expressed is written as a comment. -/
  renderUnhandled : Bool
  /-- Every operation at this depth or above starts a new moment. -/
  depth : Nat
  /-- Every operation that is visited is logged. -/
  debug : Bool
  /-- The layout. -/
  dialect : Dialect
  deriving DecidableEq

/-- The options where none are given. -/
def Config.default : Config := ⟨false, true, 2, false, .flat⟩

end CircuitTrace
