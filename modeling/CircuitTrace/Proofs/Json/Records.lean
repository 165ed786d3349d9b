import CircuitTrace.Json.Decoding
import CircuitTrace.Json.Printer
import CircuitTrace.Proofs.Json.Lexemes

/-! # Reading what a record was made of

A record is read member by member, and every member takes the fields that have been read so far to
further ones (`Takes`). So the members that are written for a piece of data are followed one by one:
those that are left out take nothing anywhere.

A reader has room for a limited number of arrays and objects inside one another, and a value needs
as much of it as it is nested (`nesting`): one for itself, and what its items or members need
(`nesting_arr_le`, `nesting_record_le`). -/

namespace CircuitTrace.Json

/-! ### Nesting -/

mutual

/-- **The number of arrays and objects inside one another** in a value. -/
def nesting : Json → Nat
  | .null | .bool _ | .num _ | .str _ | .fault => 0
  | .arr items => nestingAll items + 1
  | .obj members => nestingMembers members + 1

/-- The greatest nesting of several values. -/
def nestingAll : List Json → Nat
  | [] => 0
  | j :: js => max (nesting j) (nestingAll js)

/-- The greatest nesting of the values of members. -/
def nestingMembers : List (List Char × Json) → Nat
  | [] => 0
  | (_, j) :: ms => max (nesting j) (nestingMembers ms)

end

theorem nestingAll_le {room : Nat} : ∀ {js : List Json},
    nestingAll js ≤ room ↔ ∀ j ∈ js, nesting j ≤ room
  | [] => by simp [nestingAll]
  | j :: js => by
    rw [nestingAll, Nat.max_le, nestingAll_le]
    simp

theorem nestingMembers_le {room : Nat} : ∀ {ms : List (List Char × Json)},
    nestingMembers ms ≤ room ↔ ∀ m ∈ ms, nesting m.2 ≤ room
  | [] => by simp [nestingMembers]
  | (name, j) :: ms => by
    rw [nestingMembers, Nat.max_le, nestingMembers_le]
    simp

/-- **An array needs room for itself and for its items.** -/
theorem nesting_arr_le {room : Nat} {js : List Json} :
    nesting (.arr js) ≤ room ↔ 0 < room ∧ ∀ j ∈ js, nesting j ≤ room - 1 := by
  rw [nesting, ← nestingAll_le]
  omega

/-- A named value as it is written. -/
def written (m : String × Json) : List Char × Json := (escape m.1.toList, m.2)

theorem record_eq (ms : List (String × Json)) : record ms = .obj (ms.map written) := rfl

/-- **A record needs room for itself and for its members.** -/
theorem nesting_record_le {room : Nat} {ms : List (String × Json)} :
    nesting (record ms) ≤ room ↔ 0 < room ∧ ∀ m ∈ ms, nesting m.2 ≤ room - 1 := by
  have hmembers : (∀ m ∈ ms, nesting m.2 ≤ room - 1) ↔
      nestingMembers (ms.map written) ≤ room - 1 := by
    rw [nestingMembers_le, List.forall_mem_map]
    rfl
  rw [record_eq, nesting, hmembers]
  omega

/-! ### Plain data and lists -/

variable {α ρ : Type}

theorem readWord_nat {n : Nat} (h : n < UInt64.size) : readWord (nat n) = .ok n := readNat_nat h

/-- A field that has not been read takes what is read for it. -/
theorem map_fill {field : Option α} (hfield : field = none) {read : Json → Reading α} {j : Json}
    {x : α} (h : read j = .ok x) (set : Option α → ρ) :
    some ((fill field read j).map set) = some (.ok (set (some x))) := by
  rw [hfield, fill, h]
  rfl

theorem readOptional_of_ok {read : Json → Reading α} {j : Json} {x : α} (h : read j = .ok x)
    (hj : j ≠ .null) : readOptional read j = .ok (some x) := by
  unfold readOptional
  split
  · exact absurd rfl hj
  · rw [h]
    rfl

theorem readAll_map {read : Json → Reading α} {write : α → Json} : ∀ {xs : List α},
    (∀ x ∈ xs, read (write x) = .ok x) → readAll read (xs.map write) = .ok xs
  | [], _ => rfl
  | x :: xs, h => by
    have hx := h x List.mem_cons_self
    have hxs := readAll_map fun y hy => h y (List.mem_cons_of_mem x hy)
    rw [List.map_cons, readAll, hx, hxs]
    rfl

theorem readList_arr {room : Nat} (hroom : 0 < room) (read : Json → Reading α) (js : List Json) :
    readList room read (.arr js) = readAll read js := by
  rw [readList, if_neg (Nat.ne_of_gt hroom)]

/-- **A list is read back** if there is room for it and its items are read back. -/
theorem readList_map {room : Nat} (hroom : 0 < room) {read : Json → Reading α} {write : α → Json}
    {xs : List α} (h : ∀ x ∈ xs, read (write x) = .ok x) :
    readList room read (.arr (xs.map write)) = .ok xs := by
  rw [readList_arr hroom, readAll_map h]

/-! ### Records -/

section Records

variable {take : ρ → String → Json → Option (Reading ρ)}

theorem readMembers_append {ms ms' : List (List Char × Json)} {r r' : ρ}
    (h : readMembers take r ms = .ok r') :
    readMembers take r (ms ++ ms') = readMembers take r' ms' := by
  induction ms generalizing r with
  | nil =>
    cases h
    rfl
  | cons m ms ih =>
    obtain ⟨name, j⟩ := m
    rw [List.cons_append]
    rw [readMembers] at h ⊢
    rcases hname : unescape? name with _ | name <;> simp only [hname] at h ⊢
    · cases h
    · rcases htake : take r (String.ofList name) j with _ | e | r₁ <;> simp only [htake] at h ⊢
      · split_ifs at h ⊢
        exact ih h
      · cases h
      · exact ih h

/-- **Members take a record to another** when they are read one by one. -/
def Takes (take : ρ → String → Json → Option (Reading ρ)) (r : ρ) (ms : List (String × Json))
    (r' : ρ) : Prop := readMembers take r (ms.map written) = .ok r'

namespace Takes

variable {r r' r'' : ρ} {ms ms' : List (String × Json)}

theorem nil : Takes take r [] r := rfl

theorem single {name : String} {j : Json} (h : take r name j = some (.ok r')) :
    Takes take r [(name, j)] r' := by
  unfold Takes
  rw [List.map_cons, written, readMembers, unescape?_escape]
  simp only [String.ofList_toList, h]
  rfl

theorem append (h : Takes take r ms r') (h' : Takes take r' ms' r'') :
    Takes take r (ms ++ ms') r'' := by
  unfold Takes
  rw [List.map_append, readMembers_append h]
  exact h'

theorem cons {name : String} {j : Json} (h : take r name j = some (.ok r'))
    (hms : Takes take r' ms r'') : Takes take r ((name, j) :: ms) r'' := (single h).append hms

/-- **A record is read back** if there is room for it. -/
theorem readRecord (h : Takes take r ms r') {room : Nat} (hroom : 0 < room)
    (fields : List String) : readRecord room fields take r (record ms) = .ok r' := by
  unfold Json.readRecord
  rw [record_eq, named]
  simp only
  rw [if_neg (Nat.ne_of_gt hroom)]
  exact h

end Takes

end Records

end CircuitTrace.Json
