import CircuitTrace.Live.Basic

/-! # Capturing under observation

A session is a tracer to which a live translation may listen. `Session.step` takes a notification
and says what is put out meanwhile. When an operation breaks the contract of the translation, the
notification is not completed and the tracer stays as it was. -/

namespace CircuitTrace

/-- A tracer and what listens to it. -/
structure Session where
  /-- The tracer. -/
  tracer : Tracer
  /-- The live translation that listens, if there is one. -/
  live : Option Live

/-- What a notification leads to. -/
structure SessionStep where
  /-- The session afterwards. -/
  session : Session
  /-- What is put out. -/
  entries : List Entry
  /-- The operation that breaks the contract, if there is one. -/
  breach : Option Breach

/-- The log records among the reports. -/
def Report.entry? : Report → Option Entry
  | .logged r => some (.logged r)
  | _ => none

namespace Session

/-- A notification comes in. -/
def step (s : Session) (n : Notification) : SessionStep :=
  let (tracer, reports) := s.tracer.step n
  match s.live with
  | none => ⟨⟨tracer, none⟩, reports.filterMap Report.entry?, none⟩
  | some live =>
    let heard := live.hearAll reports
    match heard.breach with
    | some b => ⟨⟨s.tracer, some heard.live⟩, heard.entries, some b⟩
    | none => ⟨⟨tracer, some heard.live⟩, heard.entries, none⟩

/-- Notifications come in one after the other, until the contract is broken. -/
def run (s : Session) : List Notification → SessionStep
  | [] => ⟨s, [], none⟩
  | n :: ns =>
    let first := s.step n
    match first.breach with
    | some _ => first
    | none =>
      let more := first.session.run ns
      { more with entries := first.entries ++ more.entries }

end Session

end CircuitTrace
