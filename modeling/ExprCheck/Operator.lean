import ExprCheck.Token
import ExprCheck.Ty
/-! Operators: their spellings, how tightly they bind, and the types they accept. A minus or a plus
sign is both a unary and a binary operator; its position decides. The types an operator accepts are
given by rules over families of types, one function per operator kind. -/
namespace ExprCheck

inductive UnaryOp where
  | neg
  | pos
  | bitNot
  | not
deriving DecidableEq, Repr, Inhabited

namespace UnaryOp

def ofLeaf? : Leaf → Option UnaryOp
  | .op "-" => some neg
  | .op "+" => some pos
  | .op "~" => some bitNot
  | .op "!" => some not
  | .name "not" => some not
  | _ => none

def symbol : UnaryOp → String
  | neg => "-"
  | pos => "+"
  | bitNot => "~"
  | not => "not"

/-- The type of the operation: signs take any number, `~` integers, `not` booleans. -/
def result? : UnaryOp → Ty → Option Ty
  | neg, .int ty | pos, .int ty | bitNot, .int ty => some (.int ty)
  | neg, .float ty | pos, .float ty => some (.float ty)
  | not, .bool => some .bool
  | _, _ => none

end UnaryOp

inductive BinaryOp where
  | or | and
  | eq | ne | lt | gt | le | ge
  | bitOr | bitXor | bitAnd
  | shl | shr
  | add | sub
  | mul | div | floorDiv | mod
  | pow
deriving DecidableEq, Repr, Inhabited

namespace BinaryOp

def ofLeaf? : Leaf → Option BinaryOp
  | .name "or" | .op "||" => some or
  | .name "and" | .op "&&" => some and
  | .op "==" => some eq
  | .op "!=" => some ne
  | .op "<" => some lt
  | .op ">" => some gt
  | .op "<=" => some le
  | .op ">=" => some ge
  | .op "|" => some bitOr
  | .op "^" => some bitXor
  | .op "&" => some bitAnd
  | .op "<<" => some shl
  | .op ">>" => some shr
  | .op "+" => some add
  | .op "-" => some sub
  | .op "*" => some mul
  | .op "/" => some div
  | .op "//" => some floorDiv
  | .op "%" => some mod
  | .op "**" => some pow
  | _ => none

def symbol : BinaryOp → String
  | or => "or"
  | and => "and"
  | eq => "=="
  | ne => "!="
  | lt => "<"
  | gt => ">"
  | le => "<="
  | ge => ">="
  | bitOr => "|"
  | bitXor => "^"
  | bitAnd => "&"
  | shl => "<<"
  | shr => ">>"
  | add => "+"
  | sub => "-"
  | mul => "*"
  | div => "/"
  | floorDiv => "//"
  | mod => "%"
  | pow => "**"

/-- How tightly the operator binds; a larger number binds tighter. -/
def precedence : BinaryOp → Nat
  | or => 1
  | and => 2
  | eq | ne | lt | gt | le | ge => 3
  | bitOr => 4
  | bitXor => 5
  | bitAnd => 6
  | shl | shr => 7
  | add | sub => 8
  | mul | div | floorDiv | mod => 9
  | pow => 10

def isRightAssoc (op : BinaryOp) : Bool :=
  op == pow

/-- Whether the operator, standing to the right of another, takes the operand between them. -/
def takesFrom (right left : BinaryOp) : Bool :=
  left.precedence < right.precedence
    || (left.precedence == right.precedence && right.isRightAssoc)

def isArithmetic : BinaryOp → Bool
  | add | sub | mul | div | floorDiv | mod | pow => true
  | _ => false

def isComparison : BinaryOp → Bool
  | eq | ne | lt | gt | le | ge => true
  | _ => false

def isEquality : BinaryOp → Bool
  | eq | ne => true
  | _ => false

def isLogical : BinaryOp → Bool
  | or | and => true
  | _ => false

def isBitwise : BinaryOp → Bool
  | bitOr | bitXor | bitAnd | shl | shr => true
  | _ => false

/-- Bitwise operators that also join booleans. -/
def isBitwiseLogical : BinaryOp → Bool
  | bitOr | bitXor | bitAnd => true
  | _ => false

def isOrdered : Ty → Bool
  | .int _ | .float _ | .str | .char => true
  | _ => false

/-- The type of arithmetic on two numbers: of one type they keep it, and an integer beside a float
takes the float's type. -/
def arithmetic? : Ty → Ty → Option Ty
  | .int a, .int b => if a = b then some (.int a) else none
  | .float a, .float b => if a = b then some (.float a) else none
  | .int _, .float b => some (.float b)
  | .float a, .int _ => some (.float a)
  | _, _ => none

/-- The type of a bitwise operation on two integers of one type. -/
def bitwise? : Ty → Ty → Option Ty
  | .int a, .int b => if a = b then some (.int a) else none
  | _, _ => none

/-- The type of the operation, if the operand types allow it. Strings can be added; values of one
ordered type can be compared, and values of one type of any kind can be tested for equality. -/
def result? (op : BinaryOp) (left right : Ty) : Option Ty :=
  if op.isArithmetic then
    if op = add ∧ left = .str ∧ right = .str then some .str else arithmetic? left right
  else if op.isComparison then
    if left = right ∧ (isOrdered left ∨ op.isEquality) then some .bool else none
  else if op.isBitwiseLogical ∧ left = .bool ∧ right = .bool then some .bool
  else if op.isBitwise then bitwise? left right
  else if left = .bool ∧ right = .bool then some .bool
  else none

end BinaryOp

namespace Token

def unaryOp? : Token → Option UnaryOp
  | leaf l _ => UnaryOp.ofLeaf? l
  | _ => none

def binaryOp? : Token → Option BinaryOp
  | leaf l _ => BinaryOp.ofLeaf? l
  | _ => none

end Token

end ExprCheck
