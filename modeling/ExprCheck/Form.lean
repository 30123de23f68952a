import ExprCheck.Operator
import ExprCheck.Symbol
/-! Forms: how a run of tokens is to be read, decided from the tokens alone. A form knows the places
that messages point at but nothing about names. A run without a form is invalid at some token; that
is reported only when an analysis reaches it, so a form may have invalid parts. -/
namespace ExprCheck

mutual

inductive Form where
  | invalid (at? : Option Place)
  | literal (value : Literal)
  | name (text : String) (last? : Option Place)
  | tuple (items : List Part) (place : Place)
  | empty (bracket : Bracket)
  /-- Brackets with content, and the place of its first token. -/
  | group (bracket : Bracket) (first : Place) (inner : Form)
  | call (callee : String) (last? : Option Place) (args : List Part) (paren : Place)
  | operation (first : Operand) (rest : List Operation)

/-- An item between commas: a run with the place of its first token, or nothing. -/
inductive Part where
  | missing
  | run (first : Place) (form : Form)

inductive Operand where
  | mk (signs : List (UnaryOp × Place)) (form : Form)

inductive Operation where
  | mk (op : BinaryOp) (place : Place) (operand : Operand)

end

instance : Inhabited Form := ⟨.invalid none⟩

namespace Form

/-- The arguments between parentheses: the items of a tuple, else one run if there is any. -/
def args : Form → List Part
  | group _ _ (tuple items _) => items
  | group _ first inner => [.run first inner]
  | _ => []

def ofLeaf (l : Leaf) (place : Place) : Form :=
  match l with
  | .str raw => literal (.str raw)
  | .number raw => literal (.number raw)
  | .name text =>
      match Literal.ofName? text with
      | some value => literal value
      | none => if isReserved text then invalid place else name text place
  | .op _ | .dot | .comment _ | .newline | .endMarker => invalid place

end Form

end ExprCheck
