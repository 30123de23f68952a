import ExprCheck.Declaration
import ExprCheck.Scope
/-! Preludes: from declarations to a table of symbols. Structure names are collected before anything
is defined, so types may be used before their declaration. Below a module, every name is defined
twice: alone and with the module in front. All faults are collected; one of them never hides
another. -/
namespace ExprCheck

structure Prelude where
  table : ScopeTable
  /-- The faults of the declarations that are being taken in, in the order found. -/
  faults : List SpannedFault
  /-- Full names of structures by their local and full names; a later entry wins. -/
  structures : List (String × String)
  module? : Option String
deriving Repr, Inhabited

namespace Prelude

def empty : Prelude :=
  ⟨.empty, [], [], none⟩

def qualify (pre : Prelude) (name : String) : String :=
  match pre.module? with
  | some path => path ++ "." ++ name
  | none => name

def report (pre : Prelude) (fault : Fault) (span : Span) : Prelude :=
  { pre with faults := pre.faults ++ [⟨fault, span⟩] }

def collect (pre : Prelude) (d : Declaration) : Prelude :=
  match d.declared with
  | .inModule path => { pre with module? := some path }
  | .struct name _ =>
      let full := pre.qualify name
      { pre with structures := (name, full) :: (full, full) :: pre.structures }
  | _ => pre

/-- The type of a name: a built-in type, else a structure that was collected. -/
def findType? (pre : Prelude) (name : String) : Option Ty :=
  (Ty.ofName? name).or ((pre.structures.find? (·.1 = name)).map fun s => .named s.2)

/-- The type of an annotation; a name without a type is a fault. -/
def annotation (pre : Prelude) (ty? : Option String) (span : Span) : Option Ty × Prelude :=
  match ty? with
  | none => (none, pre)
  | some name =>
      match pre.findType? name with
      | some ty => (some ty, pre)
      | none => (none, pre.report (.unknownType name) span)

/-- A default value must have the type that is declared beside it. -/
def checkDefault (pre : Prelude) (ty? : Option Ty) (default? : Option Expr) (span : Span) :
    Prelude :=
  match ty?, default?.bind (·.resultType.known?) with
  | some declared, some found =>
      if found = declared then pre else pre.report (.typeMismatch declared found) span
  | _, _ => pre

def addParam (pre : Prelude) (done : ParamList) (p : Param) (spec : ParamSpec) :
    ParamList × Prelude :=
  match done.get? p.name with
  | some previous => (done, pre.report (.duplicate p.name previous.span) p.span)
  | none => (done ++ [(p.name, spec)], pre)

/-- Takes in parameters or fields after the ones done. With `ordered`, none without a default value
may follow one with a default value; `seen` says whether one has been seen. -/
def params (ordered seen : Bool) (done : ParamList) (pre : Prelude) :
    List Param → ParamList × Prelude
  | [] => (done, pre)
  | p :: rest =>
      let (ty?, pre) := pre.annotation p.ty? p.span
      let default? := p.default?.map (Expr.ofLiteral false)
      let pre := pre.checkDefault ty? default? p.span
      let pre :=
        if ordered && seen && default?.isNone then
          pre.report (.defaultBeforeRequired p.name) p.span
        else pre
      let (done, pre) := pre.addParam done p ⟨ty?, default?, p.span⟩
      params ordered (seen || default?.isSome) done pre rest

/-- The result type of an annotation; without one it is unknown. -/
def resultAnnotation (pre : Prelude) (ty? : Option String) (span : Span) : ResultType × Prelude :=
  let (ty?, pre) := pre.annotation ty? span
  (ty?.elim .undetermined .known, pre)

/-- Adds a symbol under its own name and, below a module, under its full name. -/
def addSymbol (pre : Prelude) (symbol : Symbol) : Prelude :=
  match pre.table.define symbol with
  | .error f => pre.report f.fault f.span
  | .ok (id, table) =>
      let pre := { pre with table }
      let full := pre.qualify symbol.name
      if full = symbol.name then pre
      else
        match pre.table.addAlias full id with
        | .error f => pre.report f.fault f.span
        | .ok table => { pre with table }

def define (pre : Prelude) (d : Declaration) : Prelude :=
  match d.declared with
  | .inModule path => { pre with module? := some path }
  | .function name ps returns? =>
      let (ps, pre) := pre.params true false [] ps
      let (returns, pre) := pre.resultAnnotation returns? d.span
      pre.addSymbol (.function name ps returns d.span)
  | .struct name fields =>
      let full := pre.qualify name
      let (fields, pre) := pre.params false false [] fields
      pre.addSymbol (.struct name full fields d.span)
  | .var name ty? =>
      let (ty, pre) := pre.resultAnnotation ty? d.span
      pre.addSymbol (.var name ty d.span)

/-- Takes in a list of declarations on top of what is known. The collecting pass starts below the
module that the previous list ended in, the defining pass below none. Faults are handed over and
forgotten; what could be defined stays. -/
def extend (pre : Prelude) (ds : List Declaration) : List SpannedFault × Prelude :=
  let pre := ds.foldl collect pre
  let pre := ds.foldl define { pre with module? := none }
  (pre.faults, { pre with faults := [] })

end Prelude

def ScopeTable.ofDeclarations (ds : List Declaration) : Except (List SpannedFault) ScopeTable :=
  match Prelude.empty.extend ds with
  | ([], pre) => .ok pre.table
  | (faults, _) => .error faults

end ExprCheck
