import CircuitTrace.Operation.Basic

/-! # The operations of a tree

`Operation.preorder` lists an operation with everything below it, callers before their calls. When a
call is adopted its operations come last (`preorder_adopt`).

Adoption changes the children and the targets of a caller and nothing else, so an operation keeps
its *heading* for good: listed by their headings, the operations of the caller and those of the call
stand one behind the other (`map_heading_preorder_adopt`). -/

namespace CircuitTrace

namespace Operation

mutual

/-- **The operations of a tree**, callers before their calls. -/
def preorder (op : Operation) : List Operation :=
  match op with
  | op@⟨_, _, children, _, _, _, _, _⟩ => op :: preorderCalls children

/-- The operations below an operation with the given list of children, if it has one. -/
def preorderCalls (children : Option (List Operation)) : List Operation :=
  match children with
  | some ops => preorderAll ops
  | none => []

/-- The operations of trees one after the other. -/
def preorderAll (ops : List Operation) : List Operation :=
  match ops with
  | [] => []
  | op :: ops => preorder op ++ preorderAll ops

end

@[simp] theorem preorderAll_nil : preorderAll [] = [] := rfl

@[simp] theorem preorderAll_cons (op : Operation) (ops : List Operation) :
    preorderAll (op :: ops) = op.preorder ++ preorderAll ops := rfl

theorem preorderAll_append (ops ops' : List Operation) :
    preorderAll (ops ++ ops') = preorderAll ops ++ preorderAll ops' := by
  induction ops with
  | nil => rfl
  | cons op ops ih => rw [List.cons_append, preorderAll_cons, preorderAll_cons, ih,
      List.append_assoc]

theorem preorder_eq (op : Operation) : op.preorder = op :: preorderAll op.calls := by
  obtain ⟨gate, args, children, controlled, adjoint, measurement, controls, targets⟩ := op
  rcases children with _ | ops
  · rfl
  · rfl

theorem mem_preorderAll {ops : List Operation} {o : Operation} :
    o ∈ preorderAll ops ↔ ∃ op ∈ ops, o ∈ op.preorder := by
  induction ops with
  | nil => simp
  | cons op ops ih =>
    rw [preorderAll_cons, List.mem_append, ih]
    simp only [List.mem_cons, exists_eq_or_imp]

theorem preorder_of_childless {op : Operation} (h : op.children = none) : op.preorder = [op] := by
  rw [preorder_eq, calls, h]
  rfl

theorem preorder_adopt (p c : Operation) :
    (p.adopt c).preorder = p.adopt c :: (preorderAll p.calls ++ c.preorder) := by
  have hcalls : (p.adopt c).calls = p.calls ++ [c] := rfl
  rw [preorder_eq, hcalls, preorderAll_append, preorderAll_cons, preorderAll_nil, List.append_nil]

/-! ### Headings -/

/-- **The heading of an operation**: what is known of it from its start and does not change, that is
everything but its calls and its targets. -/
def heading (op : Operation) : Operation := { op with children := none, targets := [] }

@[simp] theorem heading_adopt (p c : Operation) : (p.adopt c).heading = p.heading := rfl

theorem map_heading_preorder_adopt (p c : Operation) :
    (p.adopt c).preorder.map heading = p.preorder.map heading ++ c.preorder.map heading := by
  rw [preorder_adopt, preorder_eq p, List.map_cons, List.map_cons, heading_adopt, List.map_append,
    List.cons_append]

end Operation

end CircuitTrace
