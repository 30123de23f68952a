import ExprCheck.Finding
import ExprCheck.Form.OfTokens
import ExprCheck.Operator.Tree
/-! From forms to typed expressions. Names are resolved, literals and operations typed, and
arguments checked against the parameters of what is called. The first fault ends the analysis,
except that all arguments of a call are compared with their parameters before the call fails. A
result type that cannot be known is a warning, at the whole expression and at each item and
argument. -/
namespace ExprCheck

/-- What an analysis depends on besides the tokens: the symbols, and whether nodes record their
effects. -/
structure Analyzer where
  lookup : Lookup
  track : Bool

namespace Analyzer

def nameNode (a : Analyzer) (text : String) (last? : Option Place) : Analysis Expr :=
  match a.lookup text with
  | some symbol => pure (.mkName a.track text symbol.valueType)
  | none => .fail (.undefinedName text) last?

/-- Settles a whole expression: an unknown type is noted, a known one must be the expected one. -/
def conclude (first? : Option Place) (expected? : Option Ty) (node : Expr) : Analysis Expr :=
  match node.resultType, expected? with
  | .known found, some expected =>
      if found = expected then pure node else .fail (.typeMismatch expected found) first?
  | .undetermined, _ => do
      .note .undetermined first?
      return node
  | _, _ => pure node

def applyUnary (a : Analyzer) (op : UnaryOp) (place : Place) (operand : Expr) : Analysis Expr :=
  match operand.resultType with
  | .known ty =>
      match op.result? ty with
      | some result => pure (.mkUnary a.track op operand (.known result))
      | none => .fail (.invalidUnary op.symbol ty) place
  | _ => pure (.mkUnary a.track op operand .undetermined)

/-- Applies the operators in front of an operand, the nearest first. -/
def applySigns (a : Analyzer) : List (UnaryOp × Place) → Expr → Analysis Expr
  | [], node => pure node
  | (op, place) :: signs, node => do
      a.applyUnary op place (← a.applySigns signs node)

def applyBinary (a : Analyzer) (op : BinaryOp) (place : Place) (left right : Expr) :
    Analysis Expr :=
  match left.resultType, right.resultType with
  | .known l, .known r =>
      match op.result? l r with
      | some result => pure (.mkBinary a.track op left right (.known result))
      | none => .fail (.invalidBinary op.symbol l r) place
  | _, _ => pure (.mkBinary a.track op left right .undetermined)

/-- Applies the operators of a tree, operands before their operator. -/
def applyTree (a : Analyzer) : OpTree Expr → Analysis Expr
  | .leaf node => pure node
  | .node op place left right => do
      let l ← a.applyTree left
      let r ← a.applyTree right
      a.applyBinary op place l r

/-- The number of arguments must lie between the required and the declared number of parameters. -/
def checkCount (name : String) (params : ParamList) (required given : Nat) (paren : Place) :
    Analysis Unit :=
  if params.length < given then .fail (.tooManyArguments name params.length given) paren
  else if given < required then
    .fail (.missingArguments name ((params.names.drop given).take (required - given))) paren
  else pure ()

/-- Notes an argument whose known type is not the known type expected of it. -/
def compareArgument (param : ParamSpec) (first : Place) (value : Expr) : Analysis Unit :=
  match param.expected, value.resultType with
  | .known expected, .known found =>
      if expected = found then pure () else .note (.fault (.typeMismatch expected found)) first
  | _, _ => pure ()

def anyMissing : List Part → Bool
  | [] => false
  | .missing :: _ => true
  | .run .. :: rest => anyMissing rest

def slots (fields : ParamList) : List Slot :=
  fields.map fun (name, info) => ⟨name, info.expected⟩

def checkArguments (name : String) (params : ParamList) (required : Nat) (args : List Part)
    (paren : Place) : Analysis Unit :=
  if anyMissing args then .fail .invalidForm paren
  else checkCount name params required args.length paren

mutual

/-- The node of a form. Parentheses leave no node; the items of a tuple between other brackets are
the items of the collection, and any other content is its only item. -/
def node (a : Analyzer) : Form → Analysis Expr
  | .invalid at? => .fail .invalidForm at?
  | .literal value => pure (.ofLiteral a.track value)
  | .name text last? => a.nameNode text last?
  | .tuple items place => do
      return .mkCollection a.track .tuple (← a.itemNodes place items)
  | .empty .paren => pure (.mkCollection a.track .tuple [])
  | .empty .square => pure (.mkCollection a.track .list [])
  | .empty .brace => pure (.mkDict a.track)
  | .group .paren _ inner => a.node inner
  | .group .square _ (.tuple items place) => do
      return .mkCollection a.track .list (← a.itemNodes place items)
  | .group .square _ inner => do return .mkCollection a.track .list [← a.node inner]
  | .group .brace _ (.tuple items place) => do
      return .mkCollection a.track .set (← a.itemNodes place items)
  | .group .brace _ inner => do return .mkCollection a.track .set [← a.node inner]
  | .call callee last? args paren =>
      match a.lookup callee with
      | some (.function name params returns _) => do
          checkArguments name params params.required args paren
          return .mkCall a.track callee (← (a.argumentNodes params args).whole) returns
      | some (.struct name qualified fields _) => do
          checkArguments name fields fields.length args paren
          return .mkInit a.track callee qualified (slots fields)
            (← (a.argumentNodes fields args).whole)
      | _ => .fail (.notCallable (unqualified callee)) last?
  | .operation first rest => do
      let head ← a.operandNode first
      let tail ← a.operationNodes rest
      a.applyTree (.ofChain head tail)
termination_by structural form => form

/-- The items of a tuple at a place, none of which may be missing. -/
def itemNodes (a : Analyzer) (place : Place) : List Part → Analysis (List Expr)
  | [] => pure []
  | .missing :: _ => .fail .invalidForm place
  | .run first form :: rest => do
      let value ← conclude first none (← a.node form)
      return value :: (← a.itemNodes place rest)
termination_by structural parts => parts

def argumentNodes (a : Analyzer) : ParamList → List Part → Analysis (List Expr)
  | (_, param) :: params, .run first form :: args => do
      let value ← conclude first none (← a.node form)
      compareArgument param first value
      return value :: (← a.argumentNodes params args)
  | _, _ => pure []
termination_by structural _ args => args

def operandNode (a : Analyzer) : Operand → Analysis Expr
  | .mk signs form => do a.applySigns signs (← a.node form)
termination_by structural operand => operand

def operationNodes (a : Analyzer) : List Operation → Analysis (List (BinaryOp × Place × Expr))
  | [] => pure []
  | .mk op place operand :: rest => do
      let value ← a.operandNode operand
      return (op, place, value) :: (← a.operationNodes rest)
termination_by structural operations => operations

end

def analyze (a : Analyzer) (expected? : Option Ty) (run : List Token) : Analysis Expr := do
  conclude (firstPlace? run) expected? (← a.node (.ofTokens run))

def analyzeCall (a : Analyzer) (run : List Token) : Analysis Expr :=
  a.node (.callOfTokens run)

end Analyzer

end ExprCheck
