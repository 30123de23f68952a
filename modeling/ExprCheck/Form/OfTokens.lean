import ExprCheck.Form
import ExprCheck.Form.Chain
/-! From tokens to forms. Every token first gets the form that it has on its own; the form of a
run is then found without looking inside its tokens again. A single token, a dotted name and a
name with parentheses at the end are read as such, and any other run as operands with operators
between them. -/
namespace ExprCheck

structure Noted where
  token : Token
  form : Form
deriving Inhabited

namespace Noted

def tokens (run : List Noted) : List Token :=
  run.map Noted.token

/-- The form of a run as a call: parentheses at the end and a name before them. -/
def callForm (run : List Noted) : Form :=
  match splitAtFirst (fun n => n.token.isParenGroup) run with
  | none => .invalid (lastPlace? (tokens run))
  | some (_, _, next :: _) => .invalid next.token.place
  | some (head, paren, []) =>
      match dottedName? (tokens head) with
      | some name => .call name (lastPlace? (tokens head)) paren.form.args paren.token.place
      | none => .invalid ((firstPlace? (tokens head)).getD paren.token.place)

def atomForm? (run : List Noted) : Option Form :=
  match run with
  | [n] => some n.form
  | _ =>
      match dottedName? (tokens run) with
      | some name => some (.name name (lastPlace? (tokens run)))
      | none => if isCall true (tokens run) then some (callForm run) else none

/-- The operand that a piece of a run forms; nothing else than an atom can be one. -/
def operand (piece : Piece Noted) : Operand :=
  .mk (piece.signs.map fun (op, n) => (op, n.token.place))
    ((atomForm? piece.run).getD (.invalid (firstPlace? (tokens piece.run))))

def operationForm (run : List Noted) : Form :=
  match Chain.split Noted.token run with
  | .error at? => .invalid (at?.map fun n => n.token.place)
  | .ok chain =>
      .operation (operand chain.first)
        (chain.rest.map fun ((op, n), piece) => .mk op n.token.place (operand piece))

def runForm (run : List Noted) : Form :=
  (atomForm? run).getD (operationForm run)

end Noted

mutual

def Token.form : Token → Form
  | .leaf l place => .ofLeaf l place
  | .tuple items place => .tuple (itemParts items) place
  | .group bracket [] _ => .empty bracket
  | .group bracket (t :: inner) _ =>
      .group bracket t.place (Noted.runForm (⟨t, t.form⟩ :: noteTokens inner))
termination_by structural t => t

def noteTokens : List Token → List Noted
  | [] => []
  | t :: rest => ⟨t, t.form⟩ :: noteTokens rest
termination_by structural run => run

/-- The items of a tuple, without the empty one that a trailing comma leaves. -/
def itemParts : List (List Token) → List Part
  | [] => []
  | [[]] => []
  | [] :: rest => .missing :: itemParts rest
  | (t :: run) :: rest =>
      .run t.place (Noted.runForm (⟨t, t.form⟩ :: noteTokens run)) :: itemParts rest
termination_by structural items => items

end

namespace Form

def ofTokens (run : List Token) : Form :=
  Noted.runForm (noteTokens run)

def callOfTokens (run : List Token) : Form :=
  Noted.callForm (noteTokens run)

end Form

end ExprCheck
