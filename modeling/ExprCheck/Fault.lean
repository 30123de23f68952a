import ExprCheck.Diagnostic
import ExprCheck.Ty
/-! Faults: everything that can be wrong with declarations and expressions once they are read. A
fault is a cause; its wording and its kind are derived from it, and where it lies is kept beside
it. -/
namespace ExprCheck

inductive FaultKind where
  /-- The tokens have no form that is known. -/
  | syntaxError
  /-- A name is unknown, or stands for the wrong kind of thing. -/
  | nameError
  /-- Types or numbers of arguments disagree. -/
  | typeError
deriving DecidableEq, Repr, Inhabited

def FaultKind.name : FaultKind → String
  | syntaxError => "SyntaxError"
  | nameError => "NameError"
  | typeError => "TypeError"

inductive Fault where
  | invalidForm
  /-- A parameter without a default value stands after one with a default value. -/
  | defaultBeforeRequired (name : String)
  | undefinedName (name : String)
  /-- A called name is neither a function nor a structure. -/
  | notCallable (name : String)
  | unknownType (name : String)
  | duplicate (name : String) (previous : Span)
  /-- A name that is known but is no type. -/
  | notAType (name : String)
  | tooManyArguments (name : String) (max given : Nat)
  | missingArguments (name : String) (missing : List String)
  | typeMismatch (expected found : Ty)
  | invalidBinary (symbol : String) (left right : Ty)
  | invalidUnary (symbol : String) (operand : Ty)
deriving DecidableEq, Repr

/-- Names in backquotes, with commas between them and "and" before the last. -/
def enumerate (names : List String) : String :=
  let quoted := names.map fun n => s!"`{n}`"
  match quoted.getLast? with
  | none => ""
  | some last =>
      match quoted.dropLast with
      | [] => last
      | rest => ", ".intercalate rest ++ " and " ++ last

namespace Fault

def kind : Fault → FaultKind
  | invalidForm | defaultBeforeRequired _ => .syntaxError
  | undefinedName _ | notCallable _ | unknownType _ | duplicate .. => .nameError
  | notAType _ | tooManyArguments .. | missingArguments .. | typeMismatch .. | invalidBinary ..
  | invalidUnary .. => .typeError

def detail : Fault → String
  | invalidForm => "invalid syntax"
  | defaultBeforeRequired _ => "non-default argument follows default argument"
  | undefinedName name => s!"name `{name}` is not defined"
  | notCallable name => s!"name `{name}` is not a function or structure"
  | unknownType name => s!"type `{name}` is not defined"
  | duplicate name _ => s!"name `{name}` is already defined"
  | notAType name => s!"name `{name}` is not a type"
  | tooManyArguments name max given =>
      s!"{name}() takes {max} positional arguments but {given} were given"
  | missingArguments name missing =>
      let plural := if missing.length = 1 then "" else "s"
      s!"{name}() missing {missing.length} required positional argument{plural}: "
        ++ enumerate missing
  | typeMismatch expected found => s!"expected type `{expected.display}`, got `{found.display}`"
  | invalidBinary symbol left right =>
      s!"unsupported operand type(s) for {symbol}: `{left.display}` and `{right.display}`"
  | invalidUnary symbol operand =>
      s!"unsupported operand type(s) for unary {symbol}: `{operand.display}`"

def message (f : Fault) : String :=
  s!"{f.kind.name}: {f.detail}"

/-- What is added to a diagnostic of the fault: a second definition points at the first. -/
def notes : Fault → List String
  | duplicate _ previous => [s!"previous definition at bytes {previous.start}..{previous.stop}"]
  | _ => []

end Fault

structure SpannedFault where
  fault : Fault
  span : Span
deriving DecidableEq, Repr

def SpannedFault.diagnostic (f : SpannedFault) : Diagnostic :=
  { level := .error, message := f.fault.message, span? := some f.span, notes := f.fault.notes }

end ExprCheck
