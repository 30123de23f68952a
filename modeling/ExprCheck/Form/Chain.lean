import ExprCheck.Operator
/-! Splitting a run at its operators. Between two operands stands exactly one binary operator, and
any number of unary operators may stand in front of an operand. A token that spells both kinds is
unary where an operand is due. What an operand is made of does not matter here, as long as it does
not start with an operator and holds no binary operator. -/
namespace ExprCheck

variable {τ : Type}

/-- The tokens of an operand, and the unary operators in front of it. -/
structure Piece (τ : Type) where
  signs : List (UnaryOp × τ)
  run : List τ
deriving Repr

structure Chain (τ : Type) where
  first : Piece τ
  rest : List ((BinaryOp × τ) × Piece τ)
deriving Repr

namespace Chain

def cons (piece : Piece τ) (op : BinaryOp × τ) (chain : Chain τ) : Chain τ :=
  ⟨piece, (op, chain.first) :: chain.rest⟩

mutual

/-- Reads on where an operand is due. The fault is at a binary operator, or at the last token if
the run ends. -/
def beforeOperand (token : τ → Token) (last? : Option τ) (signs : List (UnaryOp × τ)) :
    List τ → Except (Option τ) (Chain τ)
  | [] => .error last?
  | t :: rest =>
      match (token t).unaryOp? with
      | some op => beforeOperand token (some t) (signs ++ [(op, t)]) rest
      | none =>
          match (token t).binaryOp? with
          | some _ => .error (some t)
          | none => inOperand token ⟨signs, [t]⟩ rest

/-- Reads on inside an operand, up to the next binary operator. -/
def inOperand (token : τ → Token) (piece : Piece τ) : List τ → Except (Option τ) (Chain τ)
  | [] => .ok ⟨piece, []⟩
  | t :: rest =>
      match (token t).binaryOp? with
      | some op => (beforeOperand token (some t) [] rest).map (cons piece (op, t))
      | none => inOperand token ⟨piece.signs, piece.run ++ [t]⟩ rest

end

/-- Splits a run at its operators; `token` shows the token of an element. -/
def split (token : τ → Token) (run : List τ) : Except (Option τ) (Chain τ) :=
  beforeOperand token none [] run

end Chain

end ExprCheck
