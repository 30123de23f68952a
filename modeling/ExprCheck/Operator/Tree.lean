import ExprCheck.Operator
/-! Trees of binary operations. A tree is built from left to right. A new operator looks down the
right edge of the tree for the first operation that it takes the right operand from; if there is
none, the whole tree becomes its left operand. What the leaves are does not matter here. -/
namespace ExprCheck

inductive OpTree (α : Type) where
  | leaf (value : α)
  | node (op : BinaryOp) (place : Place) (left right : OpTree α)
deriving Repr

namespace OpTree

variable {α : Type}

def extend : OpTree α → BinaryOp → Place → α → OpTree α
  | leaf a, op, place, b => node op place (leaf a) (leaf b)
  | node op' place' left right, op, place, b =>
      if op.takesFrom op' then node op' place' left (right.extend op place b)
      else node op place (node op' place' left right) (leaf b)

def ofChain (first : α) (rest : List (BinaryOp × Place × α)) : OpTree α :=
  rest.foldl (fun tree (op, place, a) => tree.extend op place a) (leaf first)

end OpTree

end ExprCheck
