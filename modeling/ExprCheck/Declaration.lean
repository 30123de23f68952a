import ExprCheck.Source
import ExprCheck.Ty.Literal
/-! Declarations: what a prelude says about the names that expressions may use. Types are kept as
they are written, and a default value is a literal. -/
namespace ExprCheck

structure Param where
  name : String
  ty? : Option String
  default? : Option Literal
  span : Span
deriving DecidableEq, Repr

inductive Declared where
  /-- The declarations that follow belong to a module. -/
  | inModule (path : String)
  | function (name : String) (params : List Param) (returns? : Option String)
  | struct (name : String) (fields : List Param)
  | var (name : String) (ty? : Option String)
deriving DecidableEq, Repr

structure Declaration where
  declared : Declared
  span : Span
deriving DecidableEq, Repr

/-- The name that a declaration introduces; a module introduces none. -/
def Declared.name? : Declared → Option String
  | inModule _ => none
  | function name .. | .struct name _ | var name _ => some name

end ExprCheck
