import ExprCheck.Expr
/-! Symbols: what the names of a prelude stand for. Parameters and fields keep the order of their
declaration, and that order binds arguments. How symbols are found is left to the tables; an
analysis only needs a function from names. -/
namespace ExprCheck

def reservedWords : List String :=
  ["True", "False", "and", "or", "not"]

def isReserved (text : String) : Bool :=
  reservedWords.contains text

inductive SymbolKind where
  | function
  | struct
  | var
deriving DecidableEq, Repr, Inhabited

/-- What is known of a parameter or field besides its name. -/
structure ParamSpec where
  ty? : Option Ty
  default? : Option Expr
  span : Span
deriving Repr, Inhabited

/-- The type expected of an argument: the declared type, else the type of the default value. -/
def ParamSpec.expected (p : ParamSpec) : ResultType :=
  match p.ty?, p.default? with
  | some ty, _ => .known ty
  | none, some value => value.resultType
  | none, none => .undetermined

abbrev ParamList := List (String × ParamSpec)

namespace ParamList

/-- Puts a parameter at the end, or in the place of the one that has its name. -/
def insert (ps : ParamList) (name : String) (info : ParamSpec) : ParamList :=
  if ps.any (·.1 = name) then ps.map fun p => if p.1 = name then (name, info) else p
  else ps ++ [(name, info)]

def get? (ps : ParamList) (name : String) : Option ParamSpec :=
  (ps.find? (·.1 = name)).map (·.2)

def names (ps : ParamList) : List String :=
  ps.map (·.1)

/-- The number of leading parameters without a default value. -/
def required (ps : ParamList) : Nat :=
  (ps.takeWhile fun p => p.2.default?.isNone).length

end ParamList

inductive Symbol where
  | function (name : String) (params : ParamList) (returns : ResultType) (span : Span)
  | struct (name qualified : String) (fields : ParamList) (span : Span)
  | var (name : String) (ty : ResultType) (span : Span)
deriving Repr, Inhabited

namespace Symbol

def name : Symbol → String
  | function name .. | .struct name .. | var name .. => name

def span : Symbol → Span
  | function _ _ _ span | .struct _ _ _ span | var _ _ span => span

def kind : Symbol → SymbolKind
  | function .. => .function
  | .struct .. => .struct
  | var .. => .var

/-- The type of the name as a value: what a function returns, a structure itself, or what a
variable holds. -/
def valueType : Symbol → ResultType
  | function _ _ returns _ => returns
  | .struct _ qualified _ _ => .known (.named qualified)
  | var _ ty _ => ty

end Symbol

abbrev Lookup := String → Option Symbol

/-- Splits an alternating run of names and dots; `none` if the run is anything else or a name in
it is reserved. -/
def nameParts? : List Token → Option (List String)
  | [.leaf (.name text) _] => if isReserved text then none else some [text]
  | .leaf (.name text) _ :: .leaf .dot _ :: rest =>
      if isReserved text then none else (nameParts? rest).map (text :: ·)
  | _ => none

/-- The dotted name that a whole run spells. -/
def dottedName? (run : List Token) : Option String :=
  (nameParts? run).map (".".intercalate ·)

/-- Whether a run starts with a name and parentheses; a strict call has nothing after them. -/
def isCall (strict : Bool) (run : List Token) : Bool :=
  match splitAtFirst Token.isParenGroup run with
  | none => false
  | some (head, _, tail) => (dottedName? head).isSome && (!strict || tail.isEmpty)

def unqualified (name : String) : String :=
  String.ofList (name.toList.reverse.takeWhile (· != '.')).reverse

end ExprCheck
