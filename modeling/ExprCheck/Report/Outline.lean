import ExprCheck.Expr
import ExprCheck.Text.Quoted
import ExprCheck.Text.Style
/-! Typed expressions as indented outlines, one line for each node. -/
namespace ExprCheck.Expr

/-- The remarks at the end of a line; only an effect that is there is mentioned. -/
def remarks (e : Expr) : String :=
  let words := (if e.isConstant then ["const"] else [])
    ++ (if e.mark.hasEffect = some true then ["effect"] else [])
  if words.isEmpty then "" else " [" ++ ", ".intercalate words ++ "]"

def styledType (styled : Bool) (e : Expr) : String :=
  Color.cyan.plain.apply styled e.resultType.display

def title : Expr → String
  | literal _ value _ => "literal " ++ Quoted.encode value ++ ": "
  | name _ text => "name " ++ text ++ ": "
  | collection .. => ""
  | dict _ => "dict: "
  | call _ callee _ => "call " ++ callee ++ ": "
  | init _ callee .. => "init " ++ callee ++ ": "
  | unary _ op _ => "unary " ++ op.symbol ++ ": "
  | binary _ op .. => "binary " ++ op.symbol ++ ": "

def indent (depth : Nat) : String :=
  String.ofList (List.replicate (2 * depth) ' ')

def outlineLine (styled : Bool) (depth : Nat) (e : Expr) : String :=
  indent depth ++ e.title ++ e.styledType styled ++ e.remarks ++ "\n"

/-- The line of a field, which stands above its value. -/
def slotLine (depth : Nat) (slot : Slot) : String :=
  indent depth ++ "." ++ slot.name ++ " (expects " ++ slot.expected.display ++ ")\n"

mutual

def outline (styled : Bool) (depth : Nat) : Expr → String
  | e@(literal ..) | e@(name ..) | e@(dict _) => outlineLine styled depth e
  | e@(collection _ _ items) => outlineLine styled depth e ++ outlineAll styled (depth + 1) items
  | e@(call _ _ args) => outlineLine styled depth e ++ outlineAll styled (depth + 1) args
  | e@(init _ _ _ slots values) =>
      outlineLine styled depth e ++ outlineSlots styled depth slots values
  | e@(unary _ _ operand) => outlineLine styled depth e ++ outline styled (depth + 1) operand
  | e@(binary _ _ left right) =>
      outlineLine styled depth e ++ outline styled (depth + 1) left
        ++ outline styled (depth + 1) right
termination_by structural e => e

def outlineAll (styled : Bool) (depth : Nat) : List Expr → String
  | [] => ""
  | e :: rest => outline styled depth e ++ outlineAll styled depth rest
termination_by structural es => es

def outlineSlots (styled : Bool) (depth : Nat) (slots : List Slot) : List Expr → String
  | [] => ""
  | value :: values =>
      match slots with
      | [] => ""
      | slot :: slots =>
          slotLine (depth + 1) slot ++ outline styled (depth + 2) value
            ++ outlineSlots styled depth slots values
termination_by structural values => values

end

end ExprCheck.Expr
