import CircuitTrace.Config.Basic
import CircuitTrace.Json.Decoding
import CircuitTrace.Json.Printer
import CircuitTrace.Json.Reader

/-! # Options as JSON values

The options are a record, every field of which may be missing and then has its default. -/

namespace CircuitTrace

open Json

namespace Dialect

/-- The layout of a name. -/
def ofName : String → Reading Dialect
  | "flat" => .ok flat
  | "moment_list" => .ok momentList
  | _ => .error .malformed

/-- Reads a layout. -/
def ofJson (room : Nat) (j : Json) : Reading Dialect := do
  let (name, data) ← readChoice room j
  let d ← ofName name
  readNothing data
  return d

end Dialect

namespace Config

/-- The options as a JSON value. -/
def toJson (c : Config) : Json :=
  record [("strict", .bool c.strict), ("render_unhandled", .bool c.renderUnhandled),
    ("depth", nat c.depth), ("debug", .bool c.debug), ("dialect", text c.dialect.name)]

/-- The fields of the options, as far as they have been read. -/
structure Fields where
  /-- The flag of strict translation. -/
  strict : Option Bool
  /-- The flag of comments for what cannot be expressed. -/
  renderUnhandled : Option Bool
  /-- The depth. -/
  depth : Option Nat
  /-- The flag of the log of visits. -/
  debug : Option Bool
  /-- The layout. -/
  dialect : Option Dialect

namespace Fields

/-- No field has been read. -/
def empty : Fields := ⟨none, none, none, none, none⟩

/-- The fields in the order in which an array gives them. -/
def names : List String := ["strict", "render_unhandled", "depth", "debug", "dialect"]

/-- Reads one of the fields. -/
def take (room : Nat) (f : Fields) (name : String) (j : Json) : Option (Reading Fields) :=
  match name with
  | "strict" => some ((fill f.strict readBool j).map fun x => { f with strict := x })
  | "render_unhandled" =>
    some ((fill f.renderUnhandled readBool j).map fun x => { f with renderUnhandled := x })
  | "depth" => some ((fill f.depth readWord j).map fun x => { f with depth := x })
  | "debug" => some ((fill f.debug readBool j).map fun x => { f with debug := x })
  | "dialect" =>
    some ((fill f.dialect (Dialect.ofJson room) j).map fun x => { f with dialect := x })
  | _ => none

/-- The options of the fields; a field that has not been read has its default. -/
def config (f : Fields) : Config :=
  ⟨f.strict.getD Config.default.strict, f.renderUnhandled.getD Config.default.renderUnhandled,
    f.depth.getD Config.default.depth, f.debug.getD Config.default.debug,
    f.dialect.getD Config.default.dialect⟩

end Fields

/-- Reads options. -/
def ofJson (room : Nat) (j : Json) : Reading Config :=
  (readRecord room Fields.names (Fields.take (room - 1)) Fields.empty j).map Fields.config

/-- The options that a text holds. -/
def ofText (s : String) : Reading Config := readOnly (ofJson nestingRoom) (documents s.toList)

end Config

end CircuitTrace
