import CircuitTrace.Operation.Json
import CircuitTrace.Proofs.Json.Documents
import CircuitTrace.Proofs.Json.Records
import CircuitTrace.Proofs.Operation.Preorder

/-! # Execution paths are read back

A path that is written as JSON, in either layout, is read back as it was
(`ExecutionPath.ofText_toJson`), if its numbers are of 64 bits and the text is not nested deeper
than a reader has room for. What is left out of an operation is what a reader takes a missing field
to be, and an empty list of children is written, so that it is told from none
(`takes_members`). An operation needs room for two arrays or objects more than its children
(`ofJson_toJson`). -/

namespace CircuitTrace

open Json

/-! ### Registers and declarations -/

/-- **The numbers of a register are of 64 bits.** -/
def Register.Fits : Register → Prop
  | qubit q => q < UInt64.size
  | classical q c => q < UInt64.size ∧ c < UInt64.size

instance : DecidablePred Register.Fits
  | .qubit q => inferInstanceAs (Decidable (q < UInt64.size))
  | .classical q c => inferInstanceAs (Decidable (q < UInt64.size ∧ c < UInt64.size))

namespace Register

theorem printable_toJson : ∀ r : Register, Printable r.toJson
  | qubit q => printable_record (by simp [printable_nat])
  | classical q c => printable_record (by simp [printable_nat])

theorem ofJson_toJson {r : Register} (h : r.Fits) {room : Nat} (hroom : 0 < room) :
    ofJson room r.toJson = .ok r := by
  have hkind : ∀ k < 256, Numbers.take ⟨none, none, none⟩ "type" (nat k) =
      some (.ok ⟨some k, none, none⟩) := fun k hk => map_fill rfl (readNat_nat hk) _
  have hqubit : ∀ k, ∀ q < UInt64.size, Numbers.take ⟨some k, none, none⟩ "qId" (nat q) =
      some (.ok ⟨some k, some q, none⟩) := fun k q hq => map_fill rfl (readWord_nat hq) _
  cases r with
  | qubit q =>
    have htakes : Takes Numbers.take ⟨none, none, none⟩ [("type", nat 0), ("qId", nat q)]
        ⟨some 0, some q, none⟩ := .cons (hkind 0 (by decide)) (.single (hqubit 0 q h))
    unfold ofJson toJson
    rw [htakes.readRecord hroom]
    rfl
  | classical q c =>
    have hclassical : Numbers.take ⟨some 1, some q, none⟩ "cId" (nat c) =
        some (.ok ⟨some 1, some q, some (some c)⟩) :=
      map_fill rfl (readOptional_of_ok (readWord_nat h.2) Json.noConfusion) _
    have htakes : Takes Numbers.take ⟨none, none, none⟩
        [("type", nat 1), ("qId", nat q), ("cId", nat c)] ⟨some 1, some q, some (some c)⟩ :=
      .cons (hkind 1 (by decide)) (.cons (hqubit 1 q h.1) (.single hclassical))
    unfold ofJson toJson
    rw [htakes.readRecord hroom]
    rfl

end Register

namespace QubitDeclaration

/-- **The numbers of a declaration are of 64 bits.** -/
def Fits (d : QubitDeclaration) : Prop := d.id < UInt64.size ∧ d.numChildren < UInt64.size

instance : DecidablePred Fits := fun d =>
  inferInstanceAs (Decidable (d.id < UInt64.size ∧ d.numChildren < UInt64.size))

theorem printable_toJson (d : QubitDeclaration) : Printable d.toJson :=
  printable_record (by simp [printable_nat])

theorem ofJson_toJson {d : QubitDeclaration} (h : d.Fits) {room : Nat} (hroom : 0 < room) :
    ofJson room d.toJson = .ok d := by
  have hid : take (none, none) "id" (nat d.id) = some (.ok (some d.id, none)) :=
    map_fill rfl (readWord_nat h.1) _
  have hnumber : take (some d.id, none) "numChildren" (nat d.numChildren) =
      some (.ok (some d.id, some d.numChildren)) := map_fill rfl (readWord_nat h.2) _
  have htakes : Takes take (none, none)
      [("id", nat d.id), ("numChildren", nat d.numChildren)] (some d.id, some d.numChildren) :=
    .cons hid (.single hnumber)
  unfold ofJson toJson
  rw [htakes.readRecord hroom]
  rfl

end QubitDeclaration

/-! ### Operations -/

namespace Operation

/-- The named values that are written for an operation. -/
def members (op : Operation) : List (String × Json) :=
  [("gate", text op.gate)] ++
  (match op.displayArgs with
    | none => []
    | some args => [("displayArgs", text args)]) ++
  childrenMember op.children ++
  memberIf op.isControlled "isControlled" (.bool true) ++
  memberIf op.isAdjoint "isAdjoint" (.bool true) ++
  memberIf op.isMeasurement "isMeasurement" (.bool true) ++
  memberIf (!op.controls.isEmpty) "controls" (.arr (op.controls.map Register.toJson)) ++
  [("targets", .arr (op.targets.map Register.toJson))]

theorem toJson_eq (op : Operation) : op.toJson = record op.members := by
  obtain ⟨gate, args, children, controlled, adjoint, measurement, controls, targets⟩ := op
  cases args <;> rfl

theorem mem_members_of_children {op : Operation} {ops : List Operation}
    (h : op.children = some ops) : ("children", .arr (toJsonAll ops)) ∈ op.members := by
  simp [members, h, childrenMember]

theorem mem_members_controls {op : Operation} (h : op.controls ≠ []) :
    ("controls", .arr (op.controls.map Register.toJson)) ∈ op.members := by
  simp [members, memberIf, h]

theorem mem_members_targets (op : Operation) :
    ("targets", .arr (op.targets.map Register.toJson)) ∈ op.members := by
  simp [members]

/-- **Registers are read back** if there is room for them. -/
theorem readRegisters_map {rs : List Register} (h : ∀ r ∈ rs, r.Fits) {room : Nat}
    (hroom : nesting (.arr (rs.map Register.toJson)) ≤ room) :
    Fields.readRegisters room (.arr (rs.map Register.toJson)) = .ok rs := by
  obtain ⟨hpos, hitems⟩ := nesting_arr_le.mp hroom
  refine readList_map hpos fun r hr => Register.ofJson_toJson (h r hr) ?_
  have hr := hitems _ (List.mem_map_of_mem hr)
  cases r <;> exact (nesting_record_le.mp hr).1

/-- **The fields that are read back of an operation.** -/
def fields (op : Operation) : Fields where
  gate := some op.gate
  displayArgs := op.displayArgs.map some
  children := op.children.map some
  isControlled := if op.isControlled then some true else none
  isAdjoint := if op.isAdjoint then some true else none
  isMeasurement := if op.isMeasurement then some true else none
  controls := if op.controls.isEmpty then none else some op.controls
  targets := some op.targets

theorem operation_fields (op : Operation) : op.fields.operation = .ok op := by
  obtain ⟨gate, args, children, controlled, adjoint, measurement, controls, targets⟩ := op
  have hargs : (args.map some).getD none = args := by cases args <;> rfl
  have hchildren : (children.map some).getD none = children := by cases children <;> rfl
  have hflag : ∀ b : Bool, (if b then some true else none).getD false = b := by decide
  have hcontrols : (if controls.isEmpty then none else some controls).getD [] = controls := by
    cases controls <;> rfl
  unfold Fields.operation fields need
  simp only [hargs, hchildren, hflag, hcontrols]
  rfl

/-- A member that may be left out sets its field if it is written. -/
theorem takes_memberIf {α ρ : Type} {take : ρ → String → Json → Option (Reading ρ)} {r : ρ}
    {name : String} {j : Json} {x : α} (set : Option α → ρ) (hnone : set none = r)
    (h : take r name j = some (.ok (set (some x)))) : ∀ written : Bool,
    Takes take r (memberIf written name j) (set (if written then some x else none))
  | true => .single h
  | false => by
    have hset : set (if false = true then some x else none) = r := hnone
    rw [hset]
    exact .nil

/-- **The members of an operation are read back** as its fields. -/
theorem takes_members {op : Operation} (hfits : ∀ r ∈ op.controls ++ op.targets, r.Fits)
    {room : Nat} {readChildren : Json → Reading (List Operation)}
    (hchildren : ∀ ops ∈ op.children, readChildren (.arr (toJsonAll ops)) = .ok ops)
    (hroom : ∀ m ∈ op.members, nesting m.2 ≤ room) :
    Takes (Fields.take room readChildren) Fields.empty op.members op.fields := by
  -- each member sets one field, whatever the others are, if that field has not been read yet
  have hgate : ∀ f : Fields, f.gate = none →
      Takes (Fields.take room readChildren) f [("gate", text op.gate)]
        { f with gate := some op.gate } := fun f hf =>
    .single (map_fill hf (readText_text op.gate) _)
  have hargs : ∀ f : Fields, f.displayArgs = none →
      Takes (Fields.take room readChildren) f
        (match op.displayArgs with
          | none => []
          | some args => [("displayArgs", text args)])
        { f with displayArgs := op.displayArgs.map some } := fun f hf => by
    rcases op.displayArgs with _ | args
    · rw [Option.map_none, ← hf]
      exact .nil
    · exact .single (map_fill hf (readOptional_of_ok (readText_text args) Json.noConfusion) _)
  have hcalls : ∀ f : Fields, f.children = none →
      Takes (Fields.take room readChildren) f (childrenMember op.children)
        { f with children := op.children.map some } := fun f hf => by
    rcases hops : op.children with _ | ops
    · rw [Option.map_none, ← hf]
      exact .nil
    · exact .single (map_fill hf
        (readOptional_of_ok (hchildren ops (by rw [hops]; rfl)) Json.noConfusion) _)
  have hcontrolled : ∀ f : Fields, f.isControlled = none →
      Takes (Fields.take room readChildren) f (memberIf op.isControlled "isControlled" (.bool true))
        { f with isControlled := if op.isControlled then some true else none } := fun f hf =>
    takes_memberIf (fun x => { f with isControlled := x }) (by rw [← hf]) (map_fill hf rfl _) _
  have hadjoint : ∀ f : Fields, f.isAdjoint = none →
      Takes (Fields.take room readChildren) f (memberIf op.isAdjoint "isAdjoint" (.bool true))
        { f with isAdjoint := if op.isAdjoint then some true else none } := fun f hf =>
    takes_memberIf (fun x => { f with isAdjoint := x }) (by rw [← hf]) (map_fill hf rfl _) _
  have hmeasurement : ∀ f : Fields, f.isMeasurement = none →
      Takes (Fields.take room readChildren) f
        (memberIf op.isMeasurement "isMeasurement" (.bool true))
        { f with isMeasurement := if op.isMeasurement then some true else none } := fun f hf =>
    takes_memberIf (fun x => { f with isMeasurement := x }) (by rw [← hf]) (map_fill hf rfl _) _
  have hcontrols : ∀ f : Fields, f.controls = none →
      Takes (Fields.take room readChildren) f
        (memberIf (!op.controls.isEmpty) "controls" (.arr (op.controls.map Register.toJson)))
        { f with controls := if op.controls.isEmpty then none else some op.controls } :=
    fun f hf => by
    by_cases hnil : op.controls = []
    · have hset : ({ f with controls := none } : Fields) = f := by rw [← hf]
      simp only [hnil, List.isEmpty_nil, if_true, hset]
      exact .nil
    · have hempty : op.controls.isEmpty = false := by simp [hnil]
      have hread := readRegisters_map (fun r hr => hfits r (List.mem_append_left _ hr))
        (hroom _ (mem_members_controls hnil))
      rw [hempty]
      exact .single (map_fill hf hread _)
  have htargets : ∀ f : Fields, f.targets = none →
      Takes (Fields.take room readChildren) f
        [("targets", .arr (op.targets.map Register.toJson))]
        { f with targets := some op.targets } := fun f hf => by
    have hread := readRegisters_map (fun r hr => hfits r (List.mem_append_right _ hr))
      (hroom _ (mem_members_targets op))
    exact .single (map_fill hf hread _)
  exact (((((((hgate _ rfl).append (hargs _ rfl)).append (hcalls _ rfl)).append
    (hcontrolled _ rfl)).append (hadjoint _ rfl)).append (hmeasurement _ rfl)).append
    (hcontrols _ rfl)).append (htargets _ rfl)

/-- An operation needs room for itself and for its targets. -/
theorem two_le_of_nesting {op : Operation} {room : Nat} (h : nesting op.toJson ≤ room) :
    2 ≤ room := by
  rw [toJson_eq] at h
  obtain ⟨hpos, hmembers⟩ := nesting_record_le.mp h
  obtain ⟨hpos', -⟩ := nesting_arr_le.mp (hmembers _ (mem_members_targets op))
  omega

/-- **An operation is read back** if its children are. -/
theorem ofJsonWith_toJson {op : Operation} (hfits : ∀ r ∈ op.controls ++ op.targets, r.Fits)
    {room : Nat} {readChildren : Json → Reading (List Operation)}
    (hchildren : ∀ ops ∈ op.children, readChildren (.arr (toJsonAll ops)) = .ok ops)
    (hroom : nesting op.toJson ≤ room) : ofJsonWith room readChildren op.toJson = .ok op := by
  rw [toJson_eq] at hroom ⊢
  obtain ⟨hpos, hmembers⟩ := nesting_record_le.mp hroom
  have htakes := takes_members hfits hchildren hmembers
  unfold ofJsonWith
  rw [htakes.readRecord hpos]
  exact operation_fields op

/-- The numbers of all registers of operations are of 64 bits. -/
def RegistersFit (ops : List Operation) : Prop :=
  ∀ op ∈ ops, ∀ r ∈ op.controls ++ op.targets, r.Fits

mutual

/-- **An operation is read back** if there is room for it. -/
theorem ofJson_toJson : ∀ {op : Operation}, RegistersFit op.preorder → ∀ {room : Nat},
    nesting op.toJson ≤ room → ofJson room op.toJson = .ok op
  | ⟨gate, args, children, controlled, adjoint, measurement, controls, targets⟩, hfits, room,
      hroom => by
    -- the children are two levels deeper: the operation is one, the list of children the other
    obtain ⟨room, rfl⟩ := Nat.exists_eq_add_of_le' (two_le_of_nesting hroom)
    rw [preorder] at hfits
    obtain ⟨hown, hbelow⟩ := List.forall_mem_cons.mp hfits
    refine ofJsonWith_toJson hown (readList_children hbelow fun ops hops => ?_) hroom
    rw [toJson_eq] at hroom
    exact (nesting_record_le.mp hroom).2 _ (mem_members_of_children hops)

theorem readList_children : ∀ {children : Option (List Operation)},
    RegistersFit (preorderCalls children) → ∀ {room : Nat},
    (∀ ops ∈ children, nesting (.arr (toJsonAll ops)) ≤ room + 1) →
    ∀ ops ∈ children, readList (room + 1) (ofJson room) (.arr (toJsonAll ops)) = .ok ops
  | none, _, _, _ => nofun
  | some ops, hfits, room, hroom => by
    intro _ hops
    obtain rfl := Option.some.inj hops
    obtain ⟨-, hitems⟩ := nesting_arr_le.mp (hroom ops rfl)
    rw [readList_arr (Nat.succ_pos room)]
    exact readAll_toJsonAll hfits hitems

theorem readAll_toJsonAll : ∀ {ops : List Operation}, RegistersFit (preorderAll ops) →
    ∀ {room : Nat}, (∀ j ∈ toJsonAll ops, nesting j ≤ room) →
    readAll (ofJson room) (toJsonAll ops) = .ok ops
  | [], _, _, _ => rfl
  | op :: ops, hfits, room, hroom => by
    rw [toJsonAll] at hroom ⊢
    rw [preorderAll] at hfits
    obtain ⟨hop, hops⟩ := List.forall_mem_append.mp hfits
    obtain ⟨hroom, hrooms⟩ := List.forall_mem_cons.mp hroom
    rw [readAll, ofJson_toJson hop hroom, readAll_toJsonAll hops hrooms]
    rfl

end

theorem printable_registers (rs : List Register) : Printable (.arr (rs.map Register.toJson)) :=
  printable_arr fun j hj => by
    obtain ⟨r, -, rfl⟩ := List.mem_map.mp hj
    exact r.printable_toJson

theorem printable_memberIf {written : Bool} {name : String} {j : Json} (h : Printable j) :
    ∀ m ∈ memberIf written name j, Printable m.2 := by
  cases written <;> simp [memberIf, h]

mutual

/-- An operation is written with texts, numbers and words alone. -/
theorem printable_toJson : ∀ op : Operation, Printable op.toJson
  | ⟨gate, args, children, controlled, adjoint, measurement, controls, targets⟩ => by
    have hbool : Printable (.bool true) := trivial
    rw [toJson_eq]
    refine printable_record ?_
    unfold members
    simp only [List.forall_mem_append, List.forall_mem_singleton]
    refine ⟨⟨⟨⟨⟨⟨⟨printable_text gate, ?_⟩, printable_childrenMember children⟩,
      printable_memberIf hbool⟩, printable_memberIf hbool⟩, printable_memberIf hbool⟩,
      printable_memberIf (printable_registers controls)⟩, printable_registers targets⟩
    cases args <;> simp [printable_text]

theorem printable_childrenMember : ∀ children : Option (List Operation),
    ∀ m ∈ childrenMember children, Printable m.2
  | none => nofun
  | some ops => by
    rw [childrenMember, List.forall_mem_singleton]
    exact printable_arr (printable_toJsonAll ops)

theorem printable_toJsonAll : ∀ ops : List Operation, ∀ j ∈ toJsonAll ops, Printable j
  | [] => nofun
  | op :: ops => by
    rw [toJsonAll, List.forall_mem_cons]
    exact ⟨printable_toJson op, printable_toJsonAll ops⟩

end

end Operation

/-! ### Paths -/

namespace ExecutionPath

/-- **The numbers of a path are of 64 bits.** -/
structure Fits (p : ExecutionPath) : Prop where
  /-- Those of the declarations. -/
  declared : ∀ d ∈ p.qubits, d.Fits
  /-- Those of the registers of all operations, at any depth. -/
  used : Operation.RegistersFit (Operation.preorderAll p.operations)

theorem printable_toJson (p : ExecutionPath) : Printable p.toJson := by
  have hqubits : Printable (.arr (p.qubits.map QubitDeclaration.toJson)) :=
    printable_arr fun j hj => by
      obtain ⟨d, -, rfl⟩ := List.mem_map.mp hj
      exact d.printable_toJson
  have hoperations := printable_arr (Operation.printable_toJsonAll p.operations)
  exact printable_record (by simp [hqubits, hoperations])

/-- A path is read back if there is room for it. -/
theorem ofJson_toJson {p : ExecutionPath} (hfits : p.Fits) {room : Nat}
    (hroom : nesting p.toJson ≤ room) : ofJson room p.toJson = .ok p := by
  obtain ⟨hpos, hmembers⟩ := nesting_record_le.mp hroom
  simp only [List.forall_mem_cons] at hmembers
  obtain ⟨hqubits, hoperations, -⟩ := hmembers
  obtain ⟨hqpos, hqitems⟩ := nesting_arr_le.mp hqubits
  obtain ⟨hopos, hoitems⟩ := nesting_arr_le.mp hoperations
  have hreadq : readList (room - 1) (QubitDeclaration.ofJson (room - 1 - 1))
      (.arr (p.qubits.map QubitDeclaration.toJson)) = .ok p.qubits := by
    refine readList_map hqpos fun d hd => QubitDeclaration.ofJson_toJson (hfits.declared d hd) ?_
    exact (nesting_record_le.mp (hqitems _ (List.mem_map_of_mem hd))).1
  have hreado : readList (room - 1) (Operation.ofJson (room - 1 - 1))
      (.arr (Operation.toJsonAll p.operations)) = .ok p.operations := by
    rw [readList_arr hopos]
    exact Operation.readAll_toJsonAll hfits.used hoitems
  have htakes : Takes (take (room - 1)) (none, none)
      [("qubits", .arr (p.qubits.map QubitDeclaration.toJson)),
        ("operations", .arr (Operation.toJsonAll p.operations))]
      (some p.qubits, some p.operations) :=
    Takes.cons (map_fill rfl hreadq _) (.single (map_fill rfl hreado _))
  unfold ofJson toJson
  rw [htakes.readRecord hpos]
  rfl

theorem ofText_of_documents {p : ExecutionPath} (hfits : p.Fits) (hroom : nesting p.toJson < 128)
    {s : List Char} (h : documents s = [p.toJson]) : ofText (String.ofList s) = .ok p := by
  unfold ofText
  rw [String.toList_ofList, h]
  exact ofJson_toJson hfits (Nat.le_of_lt_succ hroom)

/-- **A path is read back from both layouts**, if its numbers are of 64 bits and less than 128
arrays and objects are inside one another. -/
theorem ofText_toJson {p : ExecutionPath} (hfits : p.Fits) (hroom : nesting p.toJson < 128) :
    ofText (String.ofList (compact p.toJson)) = .ok p ∧ ofText p.prettyText = .ok p :=
  ⟨ofText_of_documents hfits hroom (documents_compact p.printable_toJson),
    ofText_of_documents hfits hroom (documents_pretty p.printable_toJson)⟩

/-- A path with the greatest numbers, an empty list of children, and a text with a quote, a
backslash, control characters and one beyond sixteen bits. -/
theorem ofText_toJson_of_nested :
    let p : ExecutionPath := ⟨[⟨0, 1⟩, ⟨UInt64.size - 1, UInt64.size - 1⟩],
      [{ Operation.ofGate "a \x22\\\n\x01\x7f b 😀 c" with
        displayArgs := some "", isControlled := true,
        children := some [
          { Operation.ofGate "" with
            children := some [], isAdjoint := true, targets := [.qubit (UInt64.size - 1)] },
          { Operation.ofGate "M" with
            isMeasurement := true, controls := [.qubit 0], targets := [.classical 0 0] }] }]⟩
    ofText (String.ofList (compact p.toJson)) = .ok p ∧ ofText p.prettyText = .ok p := by
  intro p
  exact ofText_toJson ⟨by decide, by unfold Operation.RegistersFit; decide +kernel⟩
    (by decide +kernel)

end ExecutionPath

end CircuitTrace
