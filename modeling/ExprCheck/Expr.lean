import ExprCheck.Operator
import ExprCheck.Ty.Literal
/-! Typed expressions. Every node carries a mark: the result type recorded for it, whether it is
constant, and, if effects are tracked, whether evaluating it can have an effect. Marks are settled
when a node is made and never change. -/
namespace ExprCheck

structure Mark where
  declared : ResultType
  isConstant : Bool
  hasEffect : Option Bool
deriving DecidableEq, Repr, Inhabited

inductive Collection where
  | tuple
  | list
  | set
deriving DecidableEq, Repr, Inhabited

def Collection.ty : Collection → Ty
  | tuple => .tuple
  | list => .list
  | set => .set

structure Slot where
  name : String
  expected : ResultType
deriving DecidableEq, Repr, Inhabited

inductive Expr where
  | literal (mark : Mark) (value : String) (ty : Ty)
  | name (mark : Mark) (name : String)
  | collection (mark : Mark) (kind : Collection) (items : List Expr)
  | dict (mark : Mark)
  | call (mark : Mark) (callee : String) (args : List Expr)
  /-- A structure under its full name; the values belong to the slots in order. -/
  | init (mark : Mark) (callee qualified : String) (slots : List Slot) (values : List Expr)
  | unary (mark : Mark) (op : UnaryOp) (operand : Expr)
  | binary (mark : Mark) (op : BinaryOp) (left right : Expr)
deriving Repr, Inhabited

namespace Expr

def mark : Expr → Mark
  | literal m .. | name m _ | collection m .. | dict m | call m .. | init m .. | unary m ..
  | binary m .. => m

def isConstant (e : Expr) : Bool :=
  e.mark.isConstant

def ownType : Expr → ResultType
  | literal _ _ ty => .known ty
  | collection _ kind _ => .known kind.ty
  | dict _ => .known .dict
  | _ => .undetermined

/-- The type of a node, which is either known or undetermined. -/
def resultType (e : Expr) : ResultType :=
  match e.mark.declared with
  | .own => e.ownType
  | declared => declared

mutual

/-- Calls and structures have an effect, and so has what contains one. -/
def isEffectful : Expr → Bool
  | call .. | init .. => true
  | collection _ _ items => anyEffectful items
  | unary _ _ operand => isEffectful operand
  | binary _ _ left right => isEffectful left || isEffectful right
  | literal .. | name .. | dict _ => false

def anyEffectful : List Expr → Bool
  | [] => false
  | e :: rest => isEffectful e || anyEffectful rest

end

end Expr

/-! Making nodes: each function settles the mark from the parts. The first argument says whether
effects are tracked. -/

def Mark.settle (track : Bool) (declared : ResultType) (isConstant effect : Bool) : Mark :=
  ⟨declared, isConstant, if track then some effect else none⟩

/-- The mark of a node that is constant if all its children are and has their effects. -/
def Mark.inherit (track : Bool) (declared : ResultType) (children : List Expr) : Mark :=
  .settle track declared (children.all Expr.isConstant) (children.any Expr.isEffectful)

namespace Expr

def mkLiteral (track : Bool) (value : String) (ty : Ty) : Expr :=
  literal (.settle track .own true false) value ty

def mkName (track : Bool) (text : String) (ty : ResultType) : Expr :=
  name (.settle track ty false false) text

def mkCollection (track : Bool) (kind : Collection) (items : List Expr) : Expr :=
  collection (.inherit track .own items) kind items

def mkDict (track : Bool) : Expr :=
  dict (.settle track .own true false)

def mkCall (track : Bool) (callee : String) (args : List Expr) (ty : ResultType) : Expr :=
  call (.settle track ty false true) callee args

def mkInit (track : Bool) (callee qualified : String) (slots : List Slot) (values : List Expr) :
    Expr :=
  init (.settle track (.known (.named qualified)) false true) callee qualified slots values

def mkUnary (track : Bool) (op : UnaryOp) (operand : Expr) (ty : ResultType) : Expr :=
  unary (.inherit track ty [operand]) op operand

def mkBinary (track : Bool) (op : BinaryOp) (left right : Expr) (ty : ResultType) : Expr :=
  binary (.inherit track ty [left, right]) op left right

def ofLiteral (track : Bool) (l : Literal) : Expr :=
  mkLiteral track l.value l.ty

end Expr

end ExprCheck
