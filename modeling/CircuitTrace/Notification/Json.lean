import CircuitTrace.Json.Decoding
import CircuitTrace.Json.Printer
import CircuitTrace.Json.Reader
import CircuitTrace.Notification.Basic

/-! # Recorded notifications as JSON values

Metadata are a record of which every field is written and all but the label may be missing. An event
is an alternative: `Start` comes with metadata or with `null`, and `End` carries nothing. A
recording is a text that holds events one after the other (`Event.series`); what is read up to the
first fault counts. -/

namespace CircuitTrace

open Json

namespace Metadata

/-- The metadata as a JSON value. -/
def toJson (m : Metadata) : Json :=
  record [("label", text m.label), ("isControlled", .bool m.isControlled),
    ("isAdjoint", .bool m.isAdjoint), ("isMeasurement", .bool m.isMeasurement),
    ("controls", .arr (m.controls.map nat)), ("targets", .arr (m.targets.map nat)),
    ("formattedNonQubitArgs", text m.formattedNonQubitArgs)]

/-- The fields of metadata, as far as they have been read. -/
structure Fields where
  /-- The label. -/
  label : Option String
  /-- The flag of a gate under control. -/
  isControlled : Option Bool
  /-- The flag of a gate that acts backwards. -/
  isAdjoint : Option Bool
  /-- The flag of a measurement. -/
  isMeasurement : Option Bool
  /-- The controls. -/
  controls : Option (List Nat)
  /-- The targets. -/
  targets : Option (List Nat)
  /-- The arguments. -/
  args : Option String

namespace Fields

/-- No field has been read. -/
def empty : Fields := ⟨none, none, none, none, none, none, none⟩

/-- The fields in the order in which an array gives them. -/
def names : List String :=
  ["label", "isControlled", "isAdjoint", "isMeasurement", "controls", "targets",
    "formattedNonQubitArgs"]

/-- Reads one of the fields. -/
def take (room : Nat) (f : Fields) (name : String) (j : Json) : Option (Reading Fields) :=
  match name with
  | "label" => some ((fill f.label readText j).map fun x => { f with label := x })
  | "isControlled" =>
    some ((fill f.isControlled readBool j).map fun x => { f with isControlled := x })
  | "isAdjoint" => some ((fill f.isAdjoint readBool j).map fun x => { f with isAdjoint := x })
  | "isMeasurement" =>
    some ((fill f.isMeasurement readBool j).map fun x => { f with isMeasurement := x })
  | "controls" =>
    some ((fill f.controls (readList room readWord) j).map fun x => { f with controls := x })
  | "targets" =>
    some ((fill f.targets (readList room readWord) j).map fun x => { f with targets := x })
  | "formattedNonQubitArgs" => some ((fill f.args readText j).map fun x => { f with args := x })
  | _ => none

/-- The metadata of the fields; a field that has not been read is empty. -/
def metadata (f : Fields) : Reading Metadata := do
  let label ← need f.label
  return ⟨label, f.isControlled.getD false, f.isAdjoint.getD false, f.isMeasurement.getD false,
    f.controls.getD [], f.targets.getD [], f.args.getD ""⟩

end Fields

/-- Reads metadata. -/
def ofJson (room : Nat) (j : Json) : Reading Metadata := do
  let f ← readRecord room Fields.names (Fields.take (room - 1)) Fields.empty j
  f.metadata

end Metadata

namespace Event

/-- The event as a JSON value. -/
def toJson : Event → Json
  | .start none => record [("Start", .null)]
  | .start (some m) => record [("Start", m.toJson)]
  | .finish => text "End"

/-- Reads an event. -/
def ofJson (room : Nat) (j : Json) : Reading Event := do
  match ← readChoice room j with
  | ("Start", some data) =>
    return .start (← readOptional (Metadata.ofJson (room - 1)) data)
  | ("End", data) =>
    readNothing data
    return .finish
  | _ => .error .malformed

/-- The events of a recording, up to the first fault. -/
def series (s : String) : List Event × Option ReadFault :=
  readSeries (ofJson nestingRoom) (documents s.toList)

end Event

end CircuitTrace
