import ExprCheck.Analyzer
import ExprCheck.Proofs.Checked
import ExprCheck.Proofs.Climb
/-! Precedence climbing over queues. The climber takes operands from the front of one queue and
operators from the front of another, and applies an operator as soon as it has both operands. Main
statement: if the queues hold a chain, the climber never finds the queue of operands empty, and it
does what is done for the tree of the chain. -/
namespace ExprCheck

/-- What a climb has made, and the queues as it leaves them. -/
structure Climb where
  value : Expr
  operands : List Expr
  operators : List (BinaryOp × Place)

namespace Checked

def dequeue {α : Type} : List α → Checked (α × List α)
  | [] => emptyQueue
  | x :: rest => pure (x, rest)

end Checked

namespace Analyzer

/-- Goes on with a left operand, as long as the operators bind at least as tightly as the bound. The
queue of operators does not grow. -/
def climb (a : Analyzer) (least : Nat) (left : Expr) (operands : List Expr) :
    (operators : List (BinaryOp × Place)) →
      Checked {c : Climb // c.operators.length ≤ operators.length}
  | [] => pure ⟨⟨left, operands, []⟩, Nat.le_refl _⟩
  | (op, place) :: operators =>
      if op.precedence < least then
        pure ⟨⟨left, operands, (op, place) :: operators⟩, Nat.le_refl _⟩
      else do
        let (first, operands) ← Checked.dequeue operands
        let right ← a.climb op.rightBound first operands operators
        let node ← (a.applyBinary op place left right.1.value).checked
        let whole ← a.climb least node right.1.operands right.1.operators
        return ⟨whole.1, Nat.le_succ_of_le (Nat.le_trans whole.2 right.2)⟩
termination_by operators => operators.length
decreasing_by
  · exact Nat.lt_succ_self _
  · exact Nat.lt_succ_of_le right.2

def climbAll (a : Analyzer) (operands : List Expr) (operators : List (BinaryOp × Place)) :
    Checked Expr := do
  let (first, operands) ← Checked.dequeue operands
  return (← a.climb 0 first operands operators).1.value

def climbed (a : Analyzer) (least : Nat) (left : Expr) (operands : List Expr)
    (operators : List (BinaryOp × Place)) : Checked Climb :=
  Subtype.val <$> a.climb least left operands operators

variable {a : Analyzer}

theorem climbed_nil (least : Nat) (left : Expr) (operands : List Expr) :
    a.climbed least left operands [] = pure ⟨left, operands, []⟩ := by
  rw [climbed, climb, map_pure]

theorem climbed_of_lt {least : Nat} {op : BinaryOp} (looser : op.precedence < least)
    (left : Expr) (operands : List Expr) (place : Place) (operators : List (BinaryOp × Place)) :
    a.climbed least left operands ((op, place) :: operators) =
      pure ⟨left, operands, (op, place) :: operators⟩ := by
  rw [climbed, climb, if_pos looser, map_pure]

theorem climbed_of_not_lt {least : Nat} {op : BinaryOp} (tight : ¬op.precedence < least)
    (left first : Expr) (operands : List Expr) (place : Place)
    (operators : List (BinaryOp × Place)) :
    a.climbed least left (first :: operands) ((op, place) :: operators) =
      a.climbed op.rightBound first operands operators >>= fun right =>
        (a.applyBinary op place left right.value).checked >>= fun node =>
          a.climbed least node right.operands right.operators := by
  simp only [climbed, map_eq_pure_bind, bind_assoc, pure_bind]
  rw [climb, if_neg tight]
  simp only [Checked.dequeue, bind_assoc, pure_bind]

/-- A climb that a tree is the left operand of does what is done for the tree that climbing finds,
and leaves the rest of the chain in the queues. -/
theorem climbed_eq (least : Nat) (left : OpTree Expr) (rest : List (BinaryOp × Place × Expr)) :
    ((a.applyTree left).checked >>= fun l =>
        a.climbed least l (rest.map fun x => x.2.2) (rest.map fun x => (x.1, x.2.1))) =
      (a.applyTree (OpTree.climb least left rest).1.1).checked >>= fun e =>
        pure ⟨e, (OpTree.climb least left rest).1.2.map fun x => x.2.2,
          (OpTree.climb least left rest).1.2.map fun x => (x.1, x.2.1)⟩ := by
  fun_induction OpTree.climb least left rest with
  | case1 least left => simp only [List.map_nil, climbed_nil]
  | case2 least left op place value rest looser =>
    simp only [List.map_cons, climbed_of_lt looser]
  | case3 least left op place value rest tight right whole ihRight ihWhole =>
    rw [← ihWhole]
    simp only [applyTree, Checked.checked_pure, pure_bind] at ihRight
    simp only [List.map_cons, climbed_of_not_lt tight, ihRight, applyTree, Checked.checked_bind,
      bind_assoc, pure_bind]
    rfl

/-- Queues that hold a chain are emptied, and neither runs out before the other. -/
theorem climbAll_eq (first : Expr) (rest : List (BinaryOp × Place × Expr)) :
    a.climbAll (first :: rest.map fun x => x.2.2) (rest.map fun x => (x.1, x.2.1)) =
      (a.applyTree (.ofChain first rest)).checked := by
  have climbs := a.climbed_eq 0 (.leaf first) rest
  rw [OpTree.climb_eq_ofChain] at climbs
  simp only [applyTree, Checked.checked_pure, pure_bind] at climbs
  have value : a.climbAll (first :: rest.map fun x => x.2.2) (rest.map fun x => (x.1, x.2.1)) =
      Climb.value <$> a.climbed 0 first (rest.map fun x => x.2.2)
        (rest.map fun x => (x.1, x.2.1)) := by
    simp only [climbAll, climbed, Checked.dequeue, pure_bind, map_eq_pure_bind, bind_assoc]
  rw [value, climbs]
  simp only [map_eq_pure_bind, bind_assoc, pure_bind, bind_pure]

end Analyzer

end ExprCheck
