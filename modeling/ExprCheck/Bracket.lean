/-! The three kinds of brackets. -/
namespace ExprCheck

inductive Bracket where
  | paren
  | square
  | brace
deriving DecidableEq, Repr, Inhabited

namespace Bracket

def opening : Bracket → Char
  | paren => '('
  | square => '['
  | brace => '{'

def closing : Bracket → Char
  | paren => ')'
  | square => ']'
  | brace => '}'

end Bracket

end ExprCheck
