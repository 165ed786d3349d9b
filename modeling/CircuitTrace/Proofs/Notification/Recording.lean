import CircuitTrace.CommandLine.Run
import CircuitTrace.Proofs.Json.Documents
import CircuitTrace.Proofs.Json.Records
import CircuitTrace.Proofs.Live.Session

/-! # Recordings are read back

A recording holds events one after the other. Every event is a string or an object, so it shows its
own end, and nothing has to stand between one and the next: whatever white space there is, the
tokens of a recording are those of its events (`Recording.tokens`), and the events are rebuilt from
them one by one (`Event.ofJson_toJson`).

So a capture of a recording leads to the path of the notifications that were recorded
(`Event.series_of_recording`). A live translation that listens may break the capture off, but it
never changes the trace. -/

namespace CircuitTrace

open Json

/-! ### Reading events -/

namespace Metadata

/-- **The numbers of metadata are of 64 bits.** -/
def Fits (m : Metadata) : Prop := ∀ q ∈ m.controls ++ m.targets, q < UInt64.size

instance : DecidablePred Fits := fun m =>
  inferInstanceAs (Decidable (∀ q ∈ m.controls ++ m.targets, q < UInt64.size))

/-- Numbers of 64 bits are read back if there is room for their list. -/
theorem readList_words {qs : List Nat} (h : ∀ q ∈ qs, q < UInt64.size) {room : Nat}
    (hroom : 0 < room) : readList room readWord (.arr (qs.map nat)) = .ok qs :=
  readList_map hroom fun q hq => readWord_nat (h q hq)

/-- **Metadata are read back** if there is room for the lists of their qubits. -/
theorem ofJson_toJson {m : Metadata} (h : m.Fits) {room : Nat} (hroom : 1 < room) :
    ofJson room m.toJson = .ok m := by
  obtain ⟨hc, ht⟩ := List.forall_mem_append.mp h
  have hreadc := readList_words hc (Nat.sub_pos_of_lt hroom)
  have hreadt := readList_words ht (Nat.sub_pos_of_lt hroom)
  -- each member sets one field, whatever the others are, if that field has not been read yet
  have hlabel : ∀ f : Fields, f.label = none →
      Takes (Fields.take (room - 1)) f [("label", text m.label)]
        { f with label := some m.label } := fun f hf =>
    .single (map_fill hf (readText_text m.label) _)
  have hcontrolled : ∀ f : Fields, f.isControlled = none →
      Takes (Fields.take (room - 1)) f [("isControlled", .bool m.isControlled)]
        { f with isControlled := some m.isControlled } := fun f hf => .single (map_fill hf rfl _)
  have hadjoint : ∀ f : Fields, f.isAdjoint = none →
      Takes (Fields.take (room - 1)) f [("isAdjoint", .bool m.isAdjoint)]
        { f with isAdjoint := some m.isAdjoint } := fun f hf => .single (map_fill hf rfl _)
  have hmeasurement : ∀ f : Fields, f.isMeasurement = none →
      Takes (Fields.take (room - 1)) f [("isMeasurement", .bool m.isMeasurement)]
        { f with isMeasurement := some m.isMeasurement } := fun f hf => .single (map_fill hf rfl _)
  have hcontrols : ∀ f : Fields, f.controls = none →
      Takes (Fields.take (room - 1)) f [("controls", .arr (m.controls.map nat))]
        { f with controls := some m.controls } := fun f hf => .single (map_fill hf hreadc _)
  have htargets : ∀ f : Fields, f.targets = none →
      Takes (Fields.take (room - 1)) f [("targets", .arr (m.targets.map nat))]
        { f with targets := some m.targets } := fun f hf => .single (map_fill hf hreadt _)
  have hargs : ∀ f : Fields, f.args = none →
      Takes (Fields.take (room - 1)) f
        [("formattedNonQubitArgs", text m.formattedNonQubitArgs)]
        { f with args := some m.formattedNonQubitArgs } := fun f hf =>
    .single (map_fill hf (readText_text m.formattedNonQubitArgs) _)
  have htakes : Takes (Fields.take (room - 1)) Fields.empty
      [("label", text m.label), ("isControlled", .bool m.isControlled),
        ("isAdjoint", .bool m.isAdjoint), ("isMeasurement", .bool m.isMeasurement),
        ("controls", .arr (m.controls.map nat)), ("targets", .arr (m.targets.map nat)),
        ("formattedNonQubitArgs", text m.formattedNonQubitArgs)]
      ⟨some m.label, some m.isControlled, some m.isAdjoint, some m.isMeasurement, some m.controls,
        some m.targets, some m.formattedNonQubitArgs⟩ :=
    ((((((hlabel _ rfl).append (hcontrolled _ rfl)).append (hadjoint _ rfl)).append
      (hmeasurement _ rfl)).append (hcontrols _ rfl)).append (htargets _ rfl)).append (hargs _ rfl)
  unfold ofJson toJson
  rw [htakes.readRecord (Nat.lt_trans Nat.zero_lt_one hroom)]
  rfl

theorem printable_toJson (m : Metadata) : Printable m.toJson := by
  have hbool : ∀ b, Printable (.bool b) := fun _ => trivial
  have hnats : ∀ qs : List Nat, Printable (.arr (qs.map nat)) := fun qs =>
    printable_arr (by simp [printable_nat])
  exact printable_record (by simp [printable_text, hbool, hnats])

end Metadata

namespace Event

/-- **The numbers of an event are of 64 bits.** -/
def Fits : Event → Prop
  | start (some m) => m.Fits
  | start none | finish => True

instance : DecidablePred Fits
  | start (some m) => inferInstanceAs (Decidable m.Fits)
  | start none | finish => inferInstanceAs (Decidable True)

/-- An object with one member names an alternative and what comes with it. -/
theorem readChoice_record {room : Nat} (hroom : 0 < room) (name : String) (j : Json) :
    readChoice room (record [(name, j)]) = .ok (name, some j) := by
  have hname : readText (.str (escape name.toList)) = .ok name := readText_text name
  unfold record readChoice
  simp only [List.map_cons, List.map_nil]
  rw [if_neg (Nat.ne_of_gt hroom), hname]
  rfl

/-- **An event is read back** if there is room for it. -/
theorem ofJson_toJson {e : Event} (h : e.Fits) {room : Nat} (hroom : 2 < room) :
    ofJson room e.toJson = .ok e := by
  have hpos : 0 < room := by omega
  match e with
  | finish => rfl
  | start none =>
    unfold ofJson toJson
    rw [readChoice_record hpos]
    rfl
  | start (some m) =>
    have hm : Metadata.ofJson (room - 1) m.toJson = .ok m := Metadata.ofJson_toJson h (by omega)
    have hdata : readOptional (Metadata.ofJson (room - 1)) m.toJson = .ok (some m) :=
      readOptional_of_ok hm Json.noConfusion
    unfold ofJson toJson
    rw [readChoice_record hpos]
    simp only [bind, Except.bind, hdata]
    rfl

theorem printable_toJson : ∀ e : Event, Printable e.toJson
  | finish => printable_text _
  | start none => printable_record (by simp [Printable])
  | start (some m) => printable_record (by simp [m.printable_toJson])

end Event

theorem Json.readSeries_map {α : Type} {read : Json → Reading α} {write : α → Json} :
    ∀ {xs : List α}, (∀ x ∈ xs, read (write x) = .ok x) →
      readSeries read (xs.map write) = (xs, none)
  | [], _ => rfl
  | x :: xs, h => by
    have hx := h x List.mem_cons_self
    have hxs := readSeries_map fun y hy => h y (List.mem_cons_of_mem x hy)
    rw [List.map_cons, readSeries, hx, hxs]

/-! ### Recordings -/

/-- **A text is a recording of events**: they are written in it one after the other, each in one of
the layouts, with any white space or none before, between and behind them. -/
inductive Recording : List Event → List Char → Prop where
  /-- There are no more events. -/
  | nil {w : List Char} : (∀ c ∈ w, isSpace c = true) → Recording [] w
  /-- An event comes in front of others. -/
  | cons {w s rest : List Char} {e : Event} {es : List Event} : (∀ c ∈ w, isSpace c = true) →
    s = compact e.toJson ∨ s = pretty e.toJson → Recording es rest →
    Recording (e :: es) (w ++ s ++ rest)

/-- An event starts with a quote or a brace. -/
theorem Event.delimited_toJson {e : Event} {s : List Char}
    (h : s = compact e.toJson ∨ s = pretty e.toJson) (rest : List Char) :
    Delimited (s ++ rest) := by
  obtain ⟨c, t, rfl, hc⟩ : ∃ c t, s = c :: t ∧ NumberPart.integer.next? c = none := by
    rcases e with (_ | m) | _ <;> rcases h with rfl | rfl <;> exact ⟨_, _, rfl, rfl⟩
  exact delimited_cons hc _

namespace Recording

variable {es : List Event} {s : List Char}

theorem delimited (h : Recording es s) : Delimited s := by
  cases h with
  | nil hw => simpa using delimited_spaces hw delimited_nil
  | cons hw hs _ =>
    rw [List.append_assoc]
    exact delimited_spaces hw (Event.delimited_toJson hs _)

/-- **The tokens of a recording** are those of its events. -/
theorem tokens (h : Recording es s) :
    tokensFrom .between s = (es.map Event.toJson).flatMap toTokens := by
  induction h with
  | nil hw => simpa [tokensFrom] using tokensFrom_spaces hw []
  | @cons w s rest e es hw hs hrest ih =>
    have hlexes : Lexes s (toTokens e.toJson) := by
      rcases hs with rfl | rfl
      · exact lexes_compact e.printable_toJson
      · exact lexes_prettyAt 0 e.printable_toJson
    rw [List.append_assoc, tokensFrom_spaces hw, hlexes rest hrest.delimited, ih, List.map_cons,
      List.flatMap_cons]

/-- **The values of a recording** are its events. -/
theorem documents (h : Recording es s) : documents s = es.map Event.toJson := by
  unfold Json.documents Json.tokens
  rw [h.tokens]
  refine documentsFrom_flatMap_toTokens fun j hj => ?_
  obtain ⟨e, -, rfl⟩ := List.mem_map.mp hj
  exact e.printable_toJson

end Recording

/-! ### Capturing -/

/-- A capture of events in which nothing went wrong has the path of their notifications, unless a
listener breaks it off. -/
theorem CommandLine.capture_of_series {config : Config} {live : Bool} {text : String}
    {es : List Event} (h : Event.series text = (es, none)) :
    let session : Session := ⟨.empty, if live then some (.new config none) else none⟩
    let path := (Tracer.empty.replay (es.map Event.notification)).executionPath
    ((session.run (es.map Event.notification)).breach = none →
        (capture config live text).path = .ok path) ∧
      ∀ path', (capture config live text).path = .ok path' → path' = path := by
  intro session path
  have hpath : (session.run (es.map Event.notification)).breach = none →
      (capture config live text).path = .ok path := by
    intro hbreach
    unfold capture
    rw [h]
    simp only
    rw [hbreach]
    exact congrArg (fun t : Tracer => Except.ok t.executionPath) (Session.tracer_run _ hbreach)
  have hbroken : ∀ b, (session.run (es.map Event.notification)).breach = some b →
      ∃ outcome, (capture config live text).path = .error outcome := by
    intro b hbreach
    unfold capture
    rw [h]
    simp only
    rw [hbreach]
    exact ⟨_, rfl⟩
  refine ⟨hpath, fun path' hpath' => ?_⟩
  rcases hbreach : (session.run (es.map Event.notification)).breach with _ | b
  · rw [hpath hbreach] at hpath'
    exact (Except.ok.inj hpath').symm
  · obtain ⟨outcome, houtcome⟩ := hbroken b hbreach
    rw [houtcome] at hpath'
    cases hpath'

/-- **A recording is read back as its events, without a fault.** So a capture of it leads to the
path of the notifications that were recorded; with a live translation that listens, it leads to that
path or is broken off. -/
theorem Event.series_of_recording {es : List Event} {s : List Char} (hfits : ∀ e ∈ es, e.Fits)
    (h : Recording es s) :
    let path := (Tracer.empty.replay (es.map Event.notification)).executionPath
    Event.series (String.ofList s) = (es, none) ∧
      (∀ config, (CommandLine.capture config false (String.ofList s)).path = .ok path) ∧
      ∀ config path',
        (CommandLine.capture config true (String.ofList s)).path = .ok path' → path' = path := by
  intro path
  have hseries : Event.series (String.ofList s) = (es, none) := by
    unfold series
    rw [String.toList_ofList, h.documents]
    exact readSeries_map fun e he => ofJson_toJson (hfits e he) (by decide)
  refine ⟨hseries, fun config => ?_, fun config => ?_⟩
  · exact (CommandLine.capture_of_series hseries).1 (Session.breach_run_none _ _)
  · exact (CommandLine.capture_of_series hseries).2

/-- A label with a quote, a brace, a control character and a backslash, and the greatest number; no
white space behind it, a line end and blanks further on, and an event on indented lines. -/
theorem Event.series_of_recording_of_four :
    let m : Metadata :=
      { Metadata.ofTargets "a\x22\x7d\x01\\" [UInt64.size - 1, 0] with isAdjoint := true }
    let es : List Event := [.start (some m), .finish, .start none, .finish]
    let text :=
      "\x7b\x22Start\x22:\x7b\x22label\x22:\x22a\\\x22\x7d\\u0001\\\\\x22," ++
      "\x22isControlled\x22:false,\x22isAdjoint\x22:true,\x22isMeasurement\x22:false," ++
      "\x22controls\x22:[]," ++
      "\x22targets\x22:[18446744073709551615,0],\x22formattedNonQubitArgs\x22:\x22\x22\x7d\x7d" ++
      "\x22End\x22\r\n\t\x7b\n  \x22Start\x22: null\n\x7d \x22End\x22\n"
    (∀ e ∈ es, e.Fits) ∧ Recording es text.toList ∧ Event.series text = (es, none) ∧
      ∀ config, (CommandLine.capture config false text).path =
        .ok (Tracer.empty.replay (es.map Event.notification)).executionPath := by
  intro m es text
  have htext : text.toList =
      [] ++ compact (toJson (.start (some m))) ++ ([] ++ compact (toJson .finish) ++
        (['\r', '\n', '\t'] ++ pretty (toJson (.start none)) ++
          ([' '] ++ compact (toJson .finish) ++ ['\n']))) := by
    simp only [text, String.toList_append]
    decide +kernel
  have hrecording : Recording es text.toList := by
    rw [htext]
    exact .cons (by simp) (.inl rfl) <| .cons (by simp) (.inl rfl) <|
      .cons (by simp [isSpace]) (.inr rfl) <| .cons (by simp [isSpace]) (.inl rfl) <|
        .nil (by simp [isSpace])
  have hfits : ∀ e ∈ es, e.Fits := by decide +kernel
  obtain ⟨hseries, hpath, -⟩ := series_of_recording hfits hrecording
  rw [String.ofList_toList] at hseries hpath
  exact ⟨hfits, hrecording, hseries, hpath⟩

end CircuitTrace
