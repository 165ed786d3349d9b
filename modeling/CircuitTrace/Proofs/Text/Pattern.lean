import CircuitTrace.Proofs.Text.Pieces

/-! # Patterns and the reading they prefer

A pattern reads a text from its beginning: characters of a class, runs of them, one pattern after
the other, a pattern that may be left out. A text can often be read in several ways. The readings
are tried in an order (`Pattern.readings`): a greedy run is long first, a lazy one short first, a
pattern that may be left out is read first and left out last, and of two patterns in a row the first
one keeps its reading as long as the second one has readings left. The text that a pattern keeps
under a name is taken from the first reading (`captures`).

Which split of a text comes first is found by looking at the splits before it: they have to fail
(`findSome?_greedy`, `findSome?_lazy`). -/

namespace CircuitTrace.Text

/-- A pattern that texts are read by. -/
inductive Pattern where
  /-- It reads nothing. -/
  | nothing
  /-- It reads nothing, at the end of the text. -/
  | finish
  /-- It reads a character of a class. -/
  | one (member : Char → Bool)
  /-- It reads a run of characters of a class, which may be empty: as many as it can, if it is
  greedy, and otherwise as few. -/
  | many (greedy : Bool) (member : Char → Bool)
  /-- It reads by the first pattern and then by the second. -/
  | seq (first second : Pattern)
  /-- It reads by the pattern, or nothing. -/
  | maybe (inner : Pattern)
  /-- It reads by the pattern and keeps what was read under a name. -/
  | keep (name : String) (inner : Pattern)

/-- The texts that are kept, each with its name, in the order of the names in the pattern. -/
abbrev Kept := List (String × List Char)

/-- One way to read the beginning of a text. -/
structure Reading where
  /-- What was kept. -/
  kept : Kept
  /-- What was read. -/
  read : List Char
  /-- What comes behind. -/
  rest : List Char

/-- The splits of a text behind a run of characters of a class, in the order in which a greedy or a
lazy run tries them. -/
def runs (greedy : Bool) (member : Char → Bool) : List Char → List (List Char × List Char)
  | [] => [([], [])]
  | c :: s =>
    if member c then
      let more := (runs greedy member s).map fun r => (c :: r.1, r.2)
      if greedy then more ++ [([], c :: s)] else ([], c :: s) :: more
    else [([], c :: s)]

section Runs
variable {greedy : Bool} {member : Char → Bool} {c : Char}

@[simp] theorem runs_nil : runs greedy member [] = [([], [])] := rfl

theorem runs_cons_of_neg (h : ¬ member c) (s : List Char) :
    runs greedy member (c :: s) = [([], c :: s)] :=
  if_neg h

theorem runs_greedy_cons (h : member c) (s : List Char) :
    runs true member (c :: s) =
      (runs true member s).map (fun r => (c :: r.1, r.2)) ++ [([], c :: s)] :=
  if_pos h

theorem runs_lazy_cons (h : member c) (s : List Char) :
    runs false member (c :: s) =
      ([], c :: s) :: (runs false member s).map fun r => (c :: r.1, r.2) :=
  if_pos h

end Runs

namespace Pattern

/-- The ways to read the beginning of a text, in the order in which they are tried. -/
def readings : Pattern → List Char → List Reading
  | nothing, s => [⟨[], [], s⟩]
  | finish, s => if s.isEmpty then [⟨[], [], []⟩] else []
  | one _, [] => []
  | one member, c :: s => if member c then [⟨[], [c], s⟩] else []
  | many greedy member, s => (runs greedy member s).map fun r => ⟨[], r.1, r.2⟩
  | seq p q, s =>
    (p.readings s).flatMap fun r =>
      (q.readings r.rest).map fun r' => ⟨r.kept ++ r'.kept, r.read ++ r'.read, r'.rest⟩
  | maybe p, s => p.readings s ++ [⟨[], [], s⟩]
  | keep name p, s => (p.readings s).map fun r => { r with kept := (name, r.read) :: r.kept }

section Readings
variable {p q : Pattern} {member : Char → Bool} {s : List Char} {c : Char}

theorem readings_nothing : nothing.readings s = [⟨[], [], s⟩] := rfl

theorem readings_finish : finish.readings s = if s.isEmpty then [⟨[], [], []⟩] else [] := rfl

theorem readings_one_nil : (one member).readings [] = [] := rfl

theorem readings_one_cons :
    (one member).readings (c :: s) = if member c then [⟨[], [c], s⟩] else [] :=
  rfl

theorem readings_many {greedy : Bool} :
    (many greedy member).readings s = (runs greedy member s).map fun r => ⟨[], r.1, r.2⟩ :=
  rfl

theorem readings_seq :
    (seq p q).readings s = (p.readings s).flatMap fun r =>
      (q.readings r.rest).map fun r' => ⟨r.kept ++ r'.kept, r.read ++ r'.read, r'.rest⟩ :=
  rfl

theorem readings_maybe : (maybe p).readings s = p.readings s ++ [⟨[], [], s⟩] := rfl

theorem readings_keep {name : String} :
    (keep name p).readings s =
      (p.readings s).map fun r => { r with kept := (name, r.read) :: r.kept } :=
  rfl

end Readings

/-- It reads one character. -/
def literal (c : Char) : Pattern := one (· = c)

/-- It reads a run that is not empty. -/
def nonempty (greedy : Bool) (member : Char → Bool) : Pattern :=
  seq (one member) (many greedy member)

/-- It reads blanks, as many as it can. -/
def blanks : Pattern := many true isBlank

/-- It reads by the patterns in a row. -/
def row : List Pattern → Pattern
  | [] => nothing
  | p :: ps => seq p (row ps)

theorem row_nil : row [] = nothing := rfl

theorem row_cons (p : Pattern) (ps : List Pattern) : row (p :: ps) = seq p (row ps) := rfl

end Pattern

open Pattern

/-- What patterns in a row keep of a text: that of the first reading. -/
def captures (ps : List Pattern) (s : List Char) : Option Kept :=
  ((row ps).readings s).head?.map Reading.kept

section Equations
variable {ps qs : List Pattern} {s : List Char} {greedy : Bool} {member : Char → Bool}

theorem captures_nil : captures [] s = some [] := rfl

/-- The first pattern of a row keeps a reading that the others can go on from. -/
theorem captures_cons (p : Pattern) (ps : List Pattern) (s : List Char) :
    captures (p :: ps) s =
      (p.readings s).findSome? fun r => (captures ps r.rest).map (r.kept ++ ·) := by
  rw [captures, row_cons, readings_seq, List.head?_flatMap, List.map_findSome?]
  refine congrArg (List.findSome? · _) (funext fun r => ?_)
  simp [captures, Function.comp_def]

theorem captures_finish_eq_some {y : Kept} : captures [finish] s = some y ↔ s = [] ∧ y = [] := by
  rw [captures_cons, readings_finish]
  cases s with
  | nil => simp [captures_nil, eq_comm]
  | cons c s => simp

theorem captures_literal_eq_some {c : Char} {y : Kept} :
    captures (literal c :: ps) s = some y ↔ ∃ t, s = c :: t ∧ captures ps t = some y := by
  rw [captures_cons, literal]
  cases s with
  | nil => simp [readings_one_nil]
  | cons d s => by_cases h : d = c <;> simp [readings_one_cons, h]

theorem captures_many :
    captures (many greedy member :: ps) s =
      (runs greedy member s).findSome? fun r => captures ps r.2 := by
  rw [captures_cons, readings_many, List.findSome?_map]
  simp [Function.comp_def]

theorem captures_keep_many (name : String) :
    captures (keep name (many greedy member) :: ps) s =
      (runs greedy member s).findSome? fun r => (captures ps r.2).map ((name, r.1) :: ·) := by
  rw [captures_cons, readings_keep, readings_many, List.findSome?_map, List.findSome?_map]
  rfl

theorem captures_keep_nonempty_nil (name : String) :
    captures (keep name (nonempty greedy member) :: ps) [] = none := by
  rw [captures_cons, readings_keep, nonempty, readings_seq, readings_one_nil]
  rfl

theorem captures_keep_nonempty_cons (name : String) (c : Char) :
    captures (keep name (nonempty greedy member) :: ps) (c :: s) =
      if member c then
        (runs greedy member s).findSome? fun r => (captures ps r.2).map ((name, c :: r.1) :: ·)
      else none := by
  rw [captures_cons, readings_keep, nonempty, readings_seq, readings_one_cons]
  by_cases hc : member c
  · simp [readings_many, hc, List.findSome?_map, Function.comp_def]
  · simp [hc]

theorem readings_row_append :
    (row (ps ++ qs)).readings s = (seq (row ps) (row qs)).readings s := by
  induction ps generalizing s with
  | nil => simp [row_nil, readings_seq, readings_nothing]
  | cons p ps ih =>
    simp only [List.cons_append, row_cons, readings_seq] at ih ⊢
    simp [ih, List.flatMap_assoc, List.flatMap_map, List.map_flatMap, Function.comp_def]

/-- Patterns that may be left out are read first, and left out if the row cannot go on. -/
theorem captures_maybe_row :
    captures (maybe (row ps) :: qs) s = (captures (ps ++ qs) s).or (captures qs s) := by
  have hread : captures (ps ++ qs) s =
      ((row ps).readings s).findSome? fun r => (captures qs r.rest).map (r.kept ++ ·) := by
    rw [← captures_cons, captures, captures, readings_row_append, row_cons]
  rw [captures_cons, readings_maybe, List.findSome?_append, hread]
  simp

end Equations

/-! ### Runs in their order -/

section Runs
variable {α : Type} {greedy : Bool} {member : Char → Bool} {a b s : List Char}
  {f : List Char × List Char → Option α} {y : α}

theorem mem_runs_cons {c : Char} :
    (a, b) ∈ runs greedy member (c :: s) ↔
      a = [] ∧ b = c :: s ∨ member c ∧ ∃ a', (a', b) ∈ runs greedy member s ∧ c :: a' = a := by
  by_cases hc : member c
  · cases greedy with
    | false => simp [runs_lazy_cons hc, hc]
    | true => simp [runs_greedy_cons hc, hc, or_comm]
  · simp [runs_cons_of_neg hc, hc]

/-- The splits of a run do not depend on their order. -/
theorem mem_runs : (a, b) ∈ runs greedy member s ↔ s = a ++ b ∧ a.all member := by
  induction s generalizing a with
  | nil => cases a <;> simp
  | cons c s ih =>
    rw [mem_runs_cons]
    cases a with
    | nil => simp [@eq_comm _ b (c :: s)]
    | cons d a =>
      constructor
      · rintro (⟨h, -⟩ | ⟨hc, a', hmem, h⟩)
        · cases h
        · obtain ⟨rfl, rfl⟩ := List.cons.inj h
          obtain ⟨rfl, ha⟩ := ih.1 hmem
          exact ⟨rfl, by simp [hc, ha]⟩
      · rintro ⟨h, hall⟩
        obtain ⟨rfl, rfl⟩ := List.cons.inj h
        obtain ⟨hc, ha⟩ : member c ∧ a.all member := by simpa using hall
        exact .inr ⟨hc, a, ih.2 ⟨rfl, ha⟩, rfl⟩

/-- A run finds no value that no split has. -/
theorem exists_of_findSome?_runs (h : (runs greedy member s).findSome? f = some y) :
    ∃ a b, s = a ++ b ∧ a.all member ∧ f (a, b) = some y := by
  obtain ⟨⟨a, b⟩, hmem, hf⟩ := List.exists_of_findSome?_eq_some h
  obtain ⟨rfl, ha⟩ := mem_runs.1 hmem
  exact ⟨a, b, rfl, ha, hf⟩

/-- **A greedy run takes the longest split that has a value.** -/
theorem findSome?_greedy (ha : a.all member) (hf : f (a, b) = some y)
    (hlong : ∀ x b', b = x ++ b' → x ≠ [] → x.all member → f (a ++ x, b') = none) :
    (runs true member (a ++ b)).findSome? f = some y := by
  induction a generalizing f with
  | nil =>
    cases b with
    | nil => simpa using hf
    | cons c b =>
      by_cases hc : member c
      · have hmore : (runs true member b).findSome? (fun r => f (c :: r.1, r.2)) = none := by
          rw [List.findSome?_eq_none_iff]
          intro r hr
          obtain ⟨rfl, hx⟩ := mem_runs.1 hr
          exact hlong (c :: r.1) r.2 rfl (List.cons_ne_nil _ _) (by simpa [hc] using hx)
        simpa [runs_greedy_cons hc, List.findSome?_append, List.findSome?_map, Function.comp_def,
          hmore] using hf
      · simpa [runs_cons_of_neg hc] using hf
  | cons c a ih =>
    obtain ⟨hc, ha⟩ : member c ∧ a.all member := by simpa using ha
    have hmore := ih (f := fun r => f (c :: r.1, r.2)) ha hf hlong
    simp [runs_greedy_cons hc, List.findSome?_append, List.findSome?_map, Function.comp_def, hmore]

/-- **A lazy run takes the shortest split that has a value.** -/
theorem findSome?_lazy (ha : a.all member) (hf : f (a, b) = some y)
    (hshort : ∀ a' x, a = a' ++ x → x ≠ [] → f (a', x ++ b) = none) :
    (runs false member (a ++ b)).findSome? f = some y := by
  induction a generalizing f with
  | nil =>
    cases b with
    | nil => simpa using hf
    | cons c b =>
      by_cases hc : member c
      · simp [runs_lazy_cons hc, hf]
      · simp [runs_cons_of_neg hc, hf]
  | cons c a ih =>
    obtain ⟨hc, ha⟩ : member c ∧ a.all member := by simpa using ha
    have hnow : f ([], c :: (a ++ b)) = none := hshort [] (c :: a) rfl (List.cons_ne_nil _ _)
    have hmore := ih (f := fun r => f (c :: r.1, r.2)) ha hf fun a' x h hx =>
      hshort (c :: a') x (by rw [h]; rfl) hx
    simpa [runs_lazy_cons hc, List.findSome?_map, Function.comp_def, hnow] using hmore

/-- **A run that a character outside its class closes** has one split with a value at most. -/
theorem findSome?_closed {c : Char} (hc : member c = false)
    (hf : ∀ a b y, f (a, b) = some y → ∃ t, b = c :: t) :
    (runs true member s).findSome? f = some y ↔
      ∃ a t, s = a ++ c :: t ∧ a.all member ∧ f (a, c :: t) = some y := by
  constructor
  · intro h
    obtain ⟨a, b, rfl, ha, hab⟩ := exists_of_findSome?_runs h
    obtain ⟨t, rfl⟩ := hf a b y hab
    exact ⟨a, t, rfl, ha, hab⟩
  · rintro ⟨a, t, rfl, ha, hat⟩
    refine findSome?_greedy ha hat fun x b hxb hx hall => ?_
    -- a longer run would read the character that closes it
    obtain ⟨d, x, rfl⟩ := List.exists_cons_of_ne_nil hx
    obtain ⟨rfl, -⟩ := List.cons.inj hxb
    simp [hc] at hall

end Runs

section Closed
variable {member : Char → Bool} {c : Char} (hc : member c = false) {ps : List Pattern}
  {s : List Char} {y : Kept}
include hc

theorem captures_many_literal :
    captures (many true member :: literal c :: ps) s = some y ↔
      ∃ a t, s = a ++ c :: t ∧ a.all member ∧ captures ps t = some y := by
  rw [captures_many, findSome?_closed hc]
  · simp [captures_literal_eq_some]
  · intro a b y h
    obtain ⟨t, rfl, -⟩ := captures_literal_eq_some.1 h
    exact ⟨t, rfl⟩

theorem captures_keep_many_literal {name : String} :
    captures (keep name (many true member) :: literal c :: ps) s = some y ↔
      ∃ a t z, s = a ++ c :: t ∧ a.all member ∧ captures ps t = some z ∧ y = (name, a) :: z := by
  rw [captures_keep_many, findSome?_closed hc]
  · simp [captures_literal_eq_some, Option.map_eq_some_iff, @eq_comm _ y]
  · intro a b y h
    obtain ⟨z, hz, -⟩ := Option.map_eq_some_iff.1 h
    obtain ⟨t, rfl, -⟩ := captures_literal_eq_some.1 hz
    exact ⟨t, rfl⟩

end Closed

end CircuitTrace.Text
