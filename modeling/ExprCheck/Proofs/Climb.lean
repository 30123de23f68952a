import ExprCheck.Proofs.OpTree
/-! Precedence climbing. A climber reads a chain from left to right with a lower bound for the
operators it may take; for the right operand of an operator it climbs again, with a bound that the
operator sets. Main statement: climbing without a bound takes the whole chain and finds the tree of
the chain. -/
namespace ExprCheck

/-- The bound for the right operand of an operator. -/
def BinaryOp.rightBound (op : BinaryOp) : Nat :=
  if op.isRightAssoc then op.precedence else op.precedence + 1

namespace BinaryOp

theorem fitsRight_of_rightBound_le {op inner : BinaryOp}
    (bound : op.rightBound ≤ inner.precedence) : op.FitsRight inner := by
  unfold rightBound isRightAssoc at bound
  split at bound
  · rename_i power
    exact ⟨bound, fun other => absurd (by simpa using power) other⟩
  · exact ⟨Nat.le_of_succ_le bound, fun _ => bound⟩

theorem fitsLeft_of_lt_rightBound {op next : BinaryOp}
    (bound : next.precedence < op.rightBound) : next.FitsLeft op := by
  unfold rightBound isRightAssoc at bound
  split at bound
  · exact ⟨Nat.le_of_lt bound, fun _ => bound⟩
  · rename_i notPower
    have looser : next.precedence ≤ op.precedence := Nat.le_of_lt_succ bound
    refine ⟨looser, ?_⟩
    rintro rfl
    have different : op.precedence ≠ pow.precedence := fun same =>
      notPower (by simp [eq_pow_of_precedence same])
    omega

end BinaryOp

namespace OpTree

variable {α : Type}

/-- Goes on with a tree as the left operand, as long as the operators bind at least as tightly as
the bound. What is left of the chain is no longer than the chain. -/
def climb (least : Nat) (left : OpTree α) : (rest : List (BinaryOp × Place × α)) →
    {out : OpTree α × List (BinaryOp × Place × α) // out.2.length ≤ rest.length}
  | [] => ⟨(left, []), Nat.le_refl _⟩
  | (op, place, value) :: rest =>
      if op.precedence < least then ⟨(left, (op, place, value) :: rest), Nat.le_refl _⟩
      else
        let right := climb op.rightBound (leaf value) rest
        let whole := climb least (node op place left right.1.1) right.1.2
        ⟨whole.1, Nat.le_succ_of_le (Nat.le_trans whole.2 right.2)⟩
termination_by rest => rest.length
decreasing_by
  · exact Nat.lt_succ_self _
  · exact Nat.lt_succ_of_le right.2

/-- A climb has taken the first part of the chain and has left a part that starts with an operator
it may not take. -/
structure Climbed (least : Nat) (left : OpTree α) (rest : List (BinaryOp × Place × α))
    (out : OpTree α × List (BinaryOp × Place × α)) : Prop where
  order : ∃ taken, rest = taken ++ out.2 ∧ out.1.inOrder = (left.inOrder.1, left.inOrder.2 ++ taken)
  grouped : out.1.Grouped
  stops : ∀ x ∈ out.2.head?, x.1.precedence < least
  root : ∀ root, out.1.root? = some root → left.root? = some root ∨ least ≤ root.precedence

theorem climb_climbed (least : Nat) (left : OpTree α) (rest : List (BinaryOp × Place × α))
    (grouped : left.Grouped)
    (ready : ∀ x ∈ rest.head?, ∀ root, left.root? = some root → x.1.FitsLeft root) :
    Climbed least left rest (climb least left rest).1 := by
  fun_induction climb least left rest with
  | case1 least left =>
    exact ⟨⟨[], by simp⟩, grouped, by simp, fun root top => .inl top⟩
  | case2 least left op place value rest looser =>
    exact ⟨⟨[], by simp⟩, grouped, by simpa using looser, fun root top => .inl top⟩
  | case3 least left op place value rest tight right whole ihRight ihWhole =>
    have below : Climbed op.rightBound (leaf value) rest right.1 := ihRight trivial (by simp [root?])
    -- The operand on the left fits because the climb is ready, the one on the right by its bound.
    have joined : (node op place left right.1.1).Grouped := by
      refine ⟨fun inner top => ready _ rfl inner top, fun inner top => ?_, grouped, below.grouped⟩
      rcases below.root inner top with atLeaf | bound
      · cases atLeaf
      · exact BinaryOp.fitsRight_of_rightBound_le bound
    -- The operator that stopped the inner climb does not take the right operand of this one.
    have after : Climbed least (node op place left right.1.1) right.1.2 whole.1 := by
      refine ihWhole joined fun x next root top => ?_
      cases top
      exact BinaryOp.fitsLeft_of_lt_rightBound (below.stops x next)
    obtain ⟨taken, parts, order⟩ := below.order
    obtain ⟨taken', parts', order'⟩ := after.order
    refine ⟨⟨(op, place, value) :: taken ++ taken', ?_, ?_⟩, after.grouped, after.stops, ?_⟩
    · simp only [List.cons_append, List.append_assoc, ← parts', ← parts]
    · simp [order', order, inOrder]
    · intro root top
      rcases after.root root top with here | bound
      · cases here
        exact .inr (Nat.le_of_not_lt tight)
      · exact .inr bound

/-- Climbing finds the tree of a chain and leaves nothing over. -/
theorem climb_eq_ofChain (first : α) (rest : List (BinaryOp × Place × α)) :
    (climb 0 (leaf first) rest).1 = (ofChain first rest, []) := by
  have climbed := climb_climbed 0 (leaf first) rest trivial (by simp [root?])
  generalize (climb 0 (leaf first) rest).1 = out at climbed
  obtain ⟨tree, unread⟩ := out
  have nothing : unread = [] := by
    cases unread with
    | nil => rfl
    | cons x unread => exact absurd (climbed.stops x rfl) (Nat.not_lt_zero _)
  obtain ⟨taken, parts, order⟩ := climbed.order
  subst nothing
  have whole : rest = taken := by simpa using parts
  subst whole
  have reads : tree.inOrder = (ofChain first rest).inOrder :=
    order.trans (inOrder_ofChain first rest).symm
  have same : tree = ofChain first rest :=
    climbed.grouped.unique (grouped_ofChain first rest) reads
  rw [same]

end OpTree

end ExprCheck
