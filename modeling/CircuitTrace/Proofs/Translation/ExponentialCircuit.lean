import CircuitTrace.Proofs.Operation.Wires
import CircuitTrace.Proofs.Pauli.Conjugation
import CircuitTrace.Proofs.Translation.Writing

/-! # The circuit of a Pauli exponential

The rotation of an exponential stands between two blocks. The first one maps the operator of the
exponential onto `Z` at the pivot: every factor that takes part becomes `Z` (`conjugateAll_bases`),
and the ladder of controlled flips leaves the `Z` of the pivot alone and takes away all the others
(`conjugateAll_ladder`). The second block undoes the first one on every operator
(`undo_gatherParity`): the ladder is mirrored, every flip is its own inverse (`undo_parityFlip`),
and every change of basis is undone by its partner (`undo_basis`), also the one of `Y`, where the
two are not mirror images.

The blocks are made of the gates that `BlockGate` allows. `visit_exponential` puts the pieces
together for a visit of an operation without calls. -/

namespace CircuitTrace

namespace Pauli

/-- The action of gates on one factor, in order. -/
def throughAll (P : Pauli) : List String → Option (Bool × Pauli)
  | [] => some (false, P)
  | symbol :: symbols =>
    (P.through symbol).bind fun new =>
      (new.2.throughAll symbols).map fun last => (new.1 != last.1, last.2)

end Pauli

namespace SignedPauli

theorem replace_self (s : SignedPauli) (q : Nat) : s.replace q (false, s.factor q) = s := by
  simp [replace]

theorem replace_replace (s : SignedPauli) (q : Nat) (new last : Bool × Pauli) :
    (s.replace q new).replace q last = s.replace q (new.1 != last.1, last.2) := by
  simp [replace]

theorem factor_replace (s : SignedPauli) (q : Nat) (new : Bool × Pauli) :
    (s.replace q new).factor q = new.2 := by
  simp [replace]

/-! ### Changes of basis -/

theorem conjugateAll_gates (q : Nat) : ∀ (symbols : List String) (s : SignedPauli),
    s.conjugateAll (symbols.map fun symbol => .gate symbol [q] []) =
      ((s.factor q).throughAll symbols).map (s.replace q)
  | [], s => by simp [Pauli.throughAll, replace_self]
  | symbol :: symbols, s => by
    have hp : s.conjugate (.gate symbol [q] []) =
        ((s.factor q).through symbol).map (s.replace q) := rfl
    rw [List.map_cons, conjugateAll_cons, hp, Pauli.throughAll]
    rcases (s.factor q).through symbol with _ | new
    · rfl
    · simp only [Option.map_some, Option.bind_some]
      rw [conjugateAll_gates q symbols, factor_replace]
      rcases new.2.throughAll symbols with _ | last
      · rfl
      · simp [replace_replace]

/-- A factor that takes part becomes `Z`, without a sign. -/
theorem conjugateAll_enterBasis {s : SignedPauli} {q : Nat} {P : Pauli} (hP : P ≠ .I)
    (hs : s.factor q = P) :
    s.conjugateAll (enterBasis q P) = some (s.replace q (false, .Z)) := by
  have hself : s.factor q = .Z → s.replace q (false, .Z) = s := by
    intro h; rw [← h, replace_self]
  cases P with
  | I => exact absurd rfl hP
  | X => exact (conjugateAll_gates q ["H"] s).trans (by rw [hs]; rfl)
  | Y => exact (conjugateAll_gates q ["Z", "S", "H"] s).trans (by rw [hs]; rfl)
  | Z => rw [hself hs]; rfl

theorem undo_basis (q : Nat) (P : Pauli) : Undo (enterBasis q P) (leaveBasis q P) := by
  intro s
  have hgates : ∀ symbols : List String,
      (∀ Q : Pauli, Q.throughAll symbols = some (false, Q)) →
        s.conjugateAll (symbols.map fun symbol => .gate symbol [q] []) = some s := by
    intro symbols h
    rw [conjugateAll_gates, h, Option.map_some, replace_self]
  cases P with
  | I => rfl
  | X => exact hgates ["H", "H"] (by intro Q; cases Q <;> rfl)
  | Y => exact hgates ["Z", "S", "H", "H", "S"] (by intro Q; cases Q <;> rfl)
  | Z => rfl

theorem conjugateAll_bases : ∀ {factors : List (Nat × Pauli)} {s : SignedPauli},
    (factors.map Prod.fst).Nodup → (∀ f ∈ factors, s.factor f.1 = f.2 ∧ f.2 ≠ .I) →
      s.conjugateAll (factors.flatMap fun f => enterBasis f.1 f.2) =
        some ⟨s.negative, fun q => if q ∈ factors.map Prod.fst then .Z else s.factor q⟩
  | [], s, _, _ => by simp
  | (q, P) :: factors, s, hnodup, hs => by
    obtain ⟨hq, hP⟩ := hs (q, P) List.mem_cons_self
    rw [List.map_cons, List.nodup_cons] at hnodup
    rw [List.flatMap_cons, conjugateAll_append, conjugateAll_enterBasis hP hq, Option.bind_some]
    have hrest : ∀ f ∈ factors, (s.replace q (false, .Z)).factor f.1 = f.2 ∧ f.2 ≠ .I := by
      intro f hf
      have hne : f.1 ≠ q := fun h => hnodup.1 (List.mem_map.mpr ⟨f, hf, h⟩)
      have hf' := hs f (List.mem_cons_of_mem _ hf)
      simpa [replace, Function.update_of_ne hne] using hf'
    rw [conjugateAll_bases hnodup.2 hrest]
    congr 1
    simp only [replace, Bool.bne_false, mk.injEq, true_and]
    funext r
    simp only [List.map_cons, List.mem_cons]
    by_cases hr : r = q
    · subst hr; simp
    · simp only [hr, false_or, Function.update_of_ne hr]

theorem undo_bases : ∀ factors : List (Nat × Pauli),
    Undo (factors.flatMap fun f => enterBasis f.1 f.2)
      (factors.reverse.flatMap fun f => leaveBasis f.1 f.2)
  | [] => undo_nil
  | f :: factors => by
    rw [List.flatMap_cons, List.reverse_cons, List.flatMap_append, List.flatMap_singleton]
    exact (undo_bases factors).around (undo_basis f.1 f.2)

/-! ### The ladder of flips -/

theorem replacePair_replacePair (s : SignedPauli) (q r : Nat) (new last : Bool × Pauli × Pauli) :
    (s.replacePair q r new).replacePair q r last =
      s.replacePair q r (new.1 != last.1, last.2) := by
  unfold replacePair
  congr 1
  · simp
  · funext x
    by_cases hr : x = r <;> by_cases hq : x = q <;> simp [Function.update_apply, hr, hq]

theorem replacePair_self (s : SignedPauli) (q r : Nat) :
    s.replacePair q r (false, s.factor q, s.factor r) = s := by
  simp [replacePair]

theorem conjugate_parityFlip {q pivot : Nat} (h : q ≠ pivot) (s : SignedPauli) :
    s.conjugate (parityFlip pivot q) =
      some (s.replacePair q pivot ((s.factor q).throughFlip (s.factor pivot))) := by
  unfold parityFlip Primitive.gate
  simp only [conjugate, if_neg h, Pauli.throughPair, Option.map_some]

/-- A controlled flip is its own inverse. -/
theorem throughFlip_throughFlip (P Q : Pauli) :
    (P.throughFlip Q).2.1.throughFlip (P.throughFlip Q).2.2 = ((P.throughFlip Q).1, P, Q) := by
  cases P <;> cases Q <;> rfl

/-- **A gate on two qubits undoes itself** if running it twice leaves every pair of factors. -/
theorem undo_pair {symbol : String} {q r : Nat} (hne : q ≠ r)
    (htwice : ∀ P Q : Pauli, ∃ new, P.throughPair Q symbol = some new ∧
      new.2.1.throughPair new.2.2 symbol = some (new.1, P, Q)) :
    Undo [.gate symbol [q, r] []] [.gate symbol [q, r] []] := by
  have hstep : ∀ s : SignedPauli, s.conjugate (.gate symbol [q, r] []) =
      ((s.factor q).throughPair (s.factor r) symbol).map (s.replacePair q r) := by
    intro s
    unfold Primitive.gate
    simp only [conjugate, if_neg hne]
  intro s
  obtain ⟨new, hnew, hback⟩ := htwice (s.factor q) (s.factor r)
  have hq : (s.replacePair q r new).factor q = new.2.1 := by simp [replacePair, hne]
  have hr : (s.replacePair q r new).factor r = new.2.2 := by simp [replacePair]
  rw [List.singleton_append, conjugateAll_cons, hstep, hnew, Option.map_some, Option.bind_some,
    conjugateAll_cons, hstep, hq, hr, hback, Option.map_some, Option.bind_some,
    replacePair_replacePair, conjugateAll_nil]
  simp [replacePair_self]

theorem undo_parityFlip {q pivot : Nat} (h : q ≠ pivot) :
    Undo [parityFlip pivot q] [parityFlip pivot q] := by
  refine undo_pair h fun P Q => ⟨P.throughFlip Q, rfl, ?_⟩
  rw [Pauli.throughPair, throughFlip_throughFlip]

/-- **The ladder takes the other qubits away** and leaves the pivot as it was. -/
theorem conjugateAll_ladder {pivot : Nat} : ∀ {others : List Nat} {s : SignedPauli},
    others.Nodup → pivot ∉ others → s.factor pivot = .Z → (∀ q ∈ others, s.factor q = .Z) →
      s.conjugateAll (others.map (parityFlip pivot)) =
        some ⟨s.negative, fun q => if q ∈ others then .I else s.factor q⟩
  | [], s, _, _, _, _ => by simp
  | q :: others, s, hnodup, hpivot, hZ, hs => by
    rw [List.nodup_cons] at hnodup
    rw [List.mem_cons, not_or] at hpivot
    have hq := hs q List.mem_cons_self
    have hflip : Pauli.throughFlip .Z .Z = (false, .I, .Z) := rfl
    rw [List.map_cons, conjugateAll_cons, conjugate_parityFlip (Ne.symm hpivot.1), hq, hZ, hflip,
      Option.bind_some]
    have hrest : ∀ r ∈ others, (s.replacePair q pivot (false, .I, .Z)).factor r = .Z := by
      intro r hr
      have hrq : r ≠ q := fun h => hnodup.1 (h ▸ hr)
      have hrp : r ≠ pivot := fun h => hpivot.2 (h ▸ hr)
      simp [replacePair, hrq, hrp, hs r (List.mem_cons_of_mem q hr)]
    rw [conjugateAll_ladder hnodup.2 hpivot.2 (by simp [replacePair]) hrest]
    congr 1
    simp only [replacePair, Bool.bne_false, mk.injEq, true_and]
    funext r
    by_cases hr : r = pivot
    · subst hr; simp [hpivot.1, hpivot.2, hZ]
    · by_cases hrq : r = q
      · subst hrq; simp [hr]
      · simp [hr, hrq]

theorem undo_ladder {pivot : Nat} : ∀ {others : List Nat}, pivot ∉ others →
    Undo (others.map (parityFlip pivot)) (others.reverse.map (parityFlip pivot))
  | [], _ => undo_nil
  | q :: others, h => by
    rw [List.mem_cons, not_or] at h
    rw [List.map_cons, List.reverse_cons, List.map_append]
    exact (undo_ladder h.2).around (undo_parityFlip (Ne.symm h.1))

/-! ### Both together -/

/-- The phase flip of one qubit. -/
def phaseFlip (q : Nat) : SignedPauli := ⟨false, Function.update (fun _ => .I) q .Z⟩

/-- **The second block undoes the first one.** -/
theorem undo_gatherParity {pivot : Nat} {others : List Nat} (h : pivot ∉ others)
    (factors : List (Nat × Pauli)) :
    Undo (gatherParity pivot others factors) (scatterParity pivot others factors) :=
  (undo_ladder h).around (undo_bases factors)

/-- **The first block leaves the phase flip of the pivot**, if its factors are all that the operator
has. -/
theorem conjugateAll_gatherParity {pivot : Nat} {P : Pauli} {rest : List (Nat × Pauli)}
    {s : SignedPauli} (hnodup : (((pivot, P) :: rest).map Prod.fst).Nodup)
    (hnegative : s.negative = false)
    (hs : ∀ f ∈ (pivot, P) :: rest, s.factor f.1 = f.2 ∧ f.2 ≠ .I)
    (hother : ∀ q ∉ ((pivot, P) :: rest).map Prod.fst, s.factor q = .I) :
    s.conjugateAll (gatherParity pivot (rest.map Prod.fst) ((pivot, P) :: rest)) =
      some (phaseFlip pivot) := by
  have hbases := conjugateAll_bases hnodup hs
  rw [List.map_cons, List.nodup_cons] at hnodup
  unfold gatherParity
  rw [conjugateAll_append, hbases, Option.bind_some,
    conjugateAll_ladder hnodup.2 hnodup.1 (by simp) (fun q hq => by simp [hq])]
  simp only [hnegative, phaseFlip, Option.some.injEq, mk.injEq, true_and]
  funext q
  by_cases hp : q = pivot
  · subst hp; simp [hnodup.1]
  · by_cases hq : q ∈ rest.map Prod.fst
    · simp only [hq, if_true, Function.update_of_ne hp]
    · have hI : q ∉ ((pivot, P) :: rest).map Prod.fst := by
        rw [List.map_cons, List.mem_cons, not_or]; exact ⟨hp, hq⟩
      rw [if_neg hq, if_neg hI, hother q hI, Function.update_of_ne hp]

/-! ### The operator of an exponential -/

theorem factor_ofFactors : ∀ {factors : List (Nat × Pauli)}, (factors.map Prod.fst).Nodup →
    ∀ {q : Nat} {P : Pauli}, (q, P) ∈ factors → (ofFactors factors).factor q = P
  | (r, Q) :: factors, hnodup, q, P, hf => by
    rw [List.map_cons, List.nodup_cons] at hnodup
    rcases List.mem_cons.mp hf with h | h
    · cases h
      simp [ofFactors, List.lookup_cons]
    · have hne : q ≠ r := fun hqr => hnodup.1 (List.mem_map.mpr ⟨(q, P), h, hqr⟩)
      have hrest := factor_ofFactors hnodup.2 h
      simpa [ofFactors, List.lookup_cons, beq_eq_false_iff_ne.mpr hne] using hrest

theorem factor_ofFactors_of_notMem {q : Nat} : ∀ {factors : List (Nat × Pauli)},
    q ∉ factors.map Prod.fst → (ofFactors factors).factor q = .I
  | [], _ => rfl
  | (r, Q) :: factors, h => by
    rw [List.map_cons, List.mem_cons, not_or] at h
    have hrest := factor_ofFactors_of_notMem h.2
    simpa [ofFactors, List.lookup_cons, beq_eq_false_iff_ne.mpr h.1] using hrest

end SignedPauli

theorem mem_activeFactors {qs : List Nat} {basis : List Pauli} {f : Nat × Pauli} :
    f ∈ activeFactors qs basis ↔ f ∈ qs.zip basis ∧ f.2 ≠ .I := by
  simp [activeFactors, List.mem_filter, Pauli.isIdentity]

theorem head?_activeFactors (qs : List Nat) (basis : List Pauli) :
    (activeFactors qs basis).head? = (qs.zip basis).find? fun f => f.2 ≠ .I := by
  unfold activeFactors
  rw [List.head?_filter]
  simp [Pauli.isIdentity]

theorem nodup_activeFactors {qs : List Nat} {basis : List Pauli} (hnodup : qs.Nodup)
    (hlength : basis.length = qs.length) : ((activeFactors qs basis).map Prod.fst).Nodup := by
  refine List.Nodup.sublist (List.Sublist.map Prod.fst List.filter_sublist) ?_
  rw [List.map_fst_zip (Nat.le_of_eq hlength.symm)]
  exact hnodup

/-- An operator other than the identity has a factor that takes part. -/
theorem activeFactors_ne_nil {qs : List Nat} {basis : List Pauli}
    (hlength : basis.length = qs.length) {P : Pauli} (hP : P ∈ basis) (hI : P ≠ .I) :
    activeFactors qs basis ≠ [] := by
  have hsnd : (qs.zip basis).map Prod.snd = basis := List.map_snd_zip (Nat.le_of_eq hlength)
  rw [← hsnd] at hP
  obtain ⟨f, hf, rfl⟩ := List.mem_map.mp hP
  exact List.ne_nil_of_mem (mem_activeFactors.mpr ⟨hf, hI⟩)

namespace SignedPauli

/-- **The operator of an exponential becomes the phase flip of the pivot.** -/
theorem conjugateAll_exponential {qs : List Nat} {basis : List Pauli} {pivot : Nat} {P : Pauli}
    {rest : List (Nat × Pauli)} (hnodup : qs.Nodup) (hlength : basis.length = qs.length)
    (hactive : activeFactors qs basis = (pivot, P) :: rest) :
    (ofFactors (qs.zip basis)).conjugateAll
        (gatherParity pivot (rest.map Prod.fst) ((pivot, P) :: rest)) =
      some (phaseFlip pivot) := by
  have hzip : ((qs.zip basis).map Prod.fst).Nodup := by
    rw [List.map_fst_zip (Nat.le_of_eq hlength.symm)]; exact hnodup
  refine conjugateAll_gatherParity (hactive ▸ nodup_activeFactors hnodup hlength) rfl ?_ ?_
  · intro f hf
    obtain ⟨hmem, hI⟩ := mem_activeFactors.mp (hactive ▸ hf)
    exact ⟨factor_ofFactors hzip hmem, hI⟩
  · intro q hq
    rw [← hactive] at hq
    by_cases hmem : q ∈ (qs.zip basis).map Prod.fst
    · obtain ⟨⟨r, Q⟩, hf, rfl⟩ := List.mem_map.mp hmem
      rw [factor_ofFactors hzip hf]
      by_contra hI
      exact hq (List.mem_map.mpr ⟨(r, Q), mem_activeFactors.mpr ⟨hf, hI⟩, rfl⟩)
    · exact factor_ofFactors_of_notMem hmem

end SignedPauli

/-! ### The shape of the blocks -/

/-- **A gate of a block** on the qubits of which a property holds: `H`, `S` or `Z` on one of them,
or the controlled flip of one of them under another. It has no further controls. -/
inductive BlockGate (active : Nat → Prop) : Primitive → Prop
  | single {symbol : String} {q : Nat} (hsymbol : symbol ∈ ["H", "S", "Z"]) (hq : active q) :
    BlockGate active (.gate symbol [q] [])
  | flip {q r : Nat} (hq : active q) (hr : active r) (hne : q ≠ r) :
    BlockGate active (.gate "CX" [q, r] [])

namespace BlockGate

variable {active : Nat → Prop} {q : Nat}

theorem of_symbols (hq : active q) (symbols : List String)
    (hsymbols : ∀ symbol ∈ symbols, symbol ∈ ["H", "S", "Z"]) :
    ∀ p ∈ symbols.map fun symbol => Primitive.gate symbol [q] [], BlockGate active p := by
  intro p hp
  obtain ⟨symbol, hsymbol, rfl⟩ := List.mem_map.mp hp
  exact single (hsymbols symbol hsymbol) hq

theorem of_enterBasis (hq : active q) : ∀ P : Pauli, ∀ p ∈ enterBasis q P, BlockGate active p
  | .X => of_symbols hq ["H"] (by decide)
  | .Y => of_symbols hq ["Z", "S", "H"] (by decide)
  | .Z => by intro p hp; cases hp
  | .I => by intro p hp; cases hp

theorem of_leaveBasis (hq : active q) : ∀ P : Pauli, ∀ p ∈ leaveBasis q P, BlockGate active p
  | .X => of_symbols hq ["H"] (by decide)
  | .Y => of_symbols hq ["H", "S"] (by decide)
  | .Z => by intro p hp; cases hp
  | .I => by intro p hp; cases hp

variable {pivot : Nat} {others : List Nat} {factors : List (Nat × Pauli)}

theorem of_ladder (hpivot : active pivot) (hothers : ∀ q ∈ others, active q)
    (hne : pivot ∉ others) : ∀ p ∈ others.map (parityFlip pivot), BlockGate active p := by
  intro p hp
  obtain ⟨q, hq, rfl⟩ := List.mem_map.mp hp
  exact flip (hothers q hq) hpivot fun h => hne (h ▸ hq)

theorem of_gatherParity (hpivot : active pivot) (hothers : ∀ q ∈ others, active q)
    (hne : pivot ∉ others) (hfactors : ∀ f ∈ factors, active f.1) :
    ∀ p ∈ gatherParity pivot others factors, BlockGate active p := by
  intro p hp
  rcases List.mem_append.mp hp with hp | hp
  · obtain ⟨f, hf, hp⟩ := List.mem_flatMap.mp hp
    exact of_enterBasis (hfactors f hf) f.2 p hp
  · exact of_ladder hpivot hothers hne p hp

theorem of_scatterParity (hpivot : active pivot) (hothers : ∀ q ∈ others, active q)
    (hne : pivot ∉ others) (hfactors : ∀ f ∈ factors, active f.1) :
    ∀ p ∈ scatterParity pivot others factors, BlockGate active p := by
  intro p hp
  rcases List.mem_append.mp hp with hp | hp
  · exact of_ladder hpivot (fun q hq => hothers q (List.mem_reverse.mp hq))
      (fun h => hne (List.mem_reverse.mp h)) p hp
  · obtain ⟨f, hf, hp⟩ := List.mem_flatMap.mp hp
    exact of_leaveBasis (hfactors f (List.mem_reverse.mp hf)) f.2 p hp

end BlockGate

/-! ### The visit of an exponential -/

theorem Operation.exponential_eq {op : Operation} {basis : List Pauli} {angle : String}
    {pivot : Nat} {P : Pauli} {rest : List (Nat × Pauli)}
    (hargs : ExponentialArgs.parse op.displayArgs = .ok ⟨basis, angle⟩)
    (hlength : basis.length = op.ownQubits.length)
    (hactive : activeFactors op.ownQubits basis = (pivot, P) :: rest) :
    op.exponential =
      .ok (gatherParity pivot (rest.map Prod.fst) ((pivot, P) :: rest) ++
        [⟨.rotation 'z' (.literal ("-2.0*" ++ angle)) pivot, []⟩] ++
        scatterParity pivot (rest.map Prod.fst) ((pivot, P) :: rest)) := by
  unfold exponential exponentialPrimitives
  simp only [hargs, hlength, ne_eq, not_true_eq_false, if_false, hactive]
  rfl

namespace Translation

theorem exists_lines_visit_exponential {op : Operation} {ps : List Primitive}
    (hgate : op.gate = exponentialLabel) (hchildren : op.children = none)
    (hps : op.exponential = .ok ps) (callerDepth : Nat) (t : Translation) :
    (visit callerDepth op t).halt = none ∧
      ∃ new, (visit callerDepth op t).translation.lines = t.lines ++ new ∧
        new.map ScriptLine.primitive = ps := by
  have hclass : GateClass.classify op.gate = none := by rw [hgate]; rfl
  have hmarker : exponentialLabel ≠ phaseMarkerLabel := by decide
  rw [visit_of_childless hclass hchildren, Walk.andThen_of_ok (halt_enter t op _)]
  unfold childless
  rw [if_neg (hgate ▸ hmarker), if_pos hgate, hps, settle_ok]
  exact ⟨rfl, exists_lines_writeAll ps _⟩

/-- **The circuit of a Pauli exponential is right.** On distinct qubits, with an operator for each
of them and not all of these the identity, an exponential without calls is written as a rotation
about the z axis of the first qubit with a factor, between two blocks of Clifford gates on qubits
with a factor. The first block takes the operator of the exponential to the phase flip of that
qubit, and both blocks together leave every operator as it was. -/
theorem visit_exponential {op : Operation} {qs : List Nat} {basis : List Pauli} {angle : String}
    (hgate : op.gate = exponentialLabel) (hchildren : op.children = none)
    (htargets : op.targets.map Register.qubitId = qs) (hnodup : qs.Nodup)
    (hargs : ExponentialArgs.parse op.displayArgs = .ok ⟨basis, angle⟩)
    (hlength : basis.length = qs.length) (hbasis : ∃ P ∈ basis, P ≠ .I)
    (callerDepth : Nat) (t : Translation) :
    ∃ (before after : List Primitive) (pivot : Nat) (P : Pauli),
      (qs.zip basis).find? (fun f => f.2 ≠ .I) = some (pivot, P) ∧
      (visit callerDepth op t).halt = none ∧
      (∃ new, (visit callerDepth op t).translation.lines = t.lines ++ new ∧
        new.map ScriptLine.primitive =
          before ++ [⟨.rotation 'z' (.literal ("-2.0*" ++ angle)) pivot, []⟩] ++ after) ∧
      (∀ p ∈ before ++ after, BlockGate (fun q => ∃ Q, (q, Q) ∈ qs.zip basis ∧ Q ≠ .I) p) ∧
      (SignedPauli.ofFactors (qs.zip basis)).conjugateAll before =
        some (SignedPauli.phaseFlip pivot) ∧
      ∀ s : SignedPauli, s.conjugateAll (before ++ after) = some s := by
  obtain ⟨Q, hQ, hI⟩ := hbasis
  obtain ⟨⟨pivot, P⟩, rest, hactive⟩ :=
    List.exists_cons_of_ne_nil (activeFactors_ne_nil hlength hQ hI)
  have hown : op.ownQubits = qs := by
    unfold Operation.ownQubits Operation.targetQubits
    rw [htargets, firstSeen_of_nodup]
    · simp
    · exact hnodup.filter _
  have hkeys := nodup_activeFactors hnodup hlength
  rw [hactive, List.map_cons, List.nodup_cons] at hkeys
  have hmem : ∀ f ∈ (pivot, P) :: rest, ∃ Q, (f.1, Q) ∈ qs.zip basis ∧ Q ≠ .I := by
    intro f hf
    exact ⟨f.2, mem_activeFactors.mp (hactive ▸ hf)⟩
  have hothers : ∀ q ∈ rest.map Prod.fst, ∃ Q, (q, Q) ∈ qs.zip basis ∧ Q ≠ .I := by
    intro q hq
    obtain ⟨f, hf, rfl⟩ := List.mem_map.mp hq
    exact hmem f (List.mem_cons_of_mem _ hf)
  have hpivot := hmem (pivot, P) List.mem_cons_self
  have hps := Operation.exponential_eq hargs (hown ▸ hlength) (hown ▸ hactive)
  obtain ⟨hhalt, hlines⟩ := exists_lines_visit_exponential hgate hchildren hps callerDepth t
  refine ⟨_, _, pivot, P, ?_, hhalt, hlines, ?_,
    SignedPauli.conjugateAll_exponential hnodup hlength hactive,
    SignedPauli.undo_gatherParity hkeys.1 _⟩
  · rw [← head?_activeFactors, hactive]; rfl
  · intro p hp
    rcases List.mem_append.mp hp with hp | hp
    · exact BlockGate.of_gatherParity hpivot hothers hkeys.1 hmem p hp
    · exact BlockGate.of_scatterParity hpivot hothers hkeys.1 hmem p hp

/-- The exponential of `Y ⊗ I ⊗ X` on qubits that are not in order. -/
theorem visit_exponential_of_three :
    ∃ (before after : List Primitive) (pivot : Nat) (P : Pauli),
      ([(7, .Y), (2, .I), (5, .X)] : List (Nat × Pauli)).find? (fun f => f.2 ≠ .I) =
        some (pivot, P) ∧
      (visit 0 ⟨"Exp", some "([PauliY, PauliI, PauliX], 0.1)", none, false, false, false, [],
        [.qubit 7, .qubit 2, .qubit 5]⟩ (.new .default)).halt = none ∧
      (∃ new,
        (visit 0 ⟨"Exp", some "([PauliY, PauliI, PauliX], 0.1)", none, false, false, false, [],
          [.qubit 7, .qubit 2, .qubit 5]⟩ (.new .default)).translation.lines = [] ++ new ∧
        new.map ScriptLine.primitive =
          before ++ [⟨.rotation 'z' (.literal "-2.0*0.1") pivot, []⟩] ++ after) ∧
      (∀ p ∈ before ++ after,
        BlockGate (fun q => ∃ Q, (q, Q) ∈ [(7, .Y), (2, .I), (5, .X)] ∧ Q ≠ Pauli.I) p) ∧
      (SignedPauli.ofFactors [(7, .Y), (2, .I), (5, .X)]).conjugateAll before =
        some (SignedPauli.phaseFlip pivot) ∧
      ∀ s : SignedPauli, s.conjugateAll (before ++ after) = some s :=
  @visit_exponential _ [7, 2, 5] [.Y, .I, .X] "0.1" rfl rfl rfl (by decide) (by decide +kernel) rfl
    ⟨.Y, by decide, by decide⟩ 0 (.new .default)

end Translation

end CircuitTrace
