import ExprCheck.Analyzer
import ExprCheck.Proofs.Analysis
import ExprCheck.Proofs.Form
/-! Typing rules of expressions. `Builds` derives the expressions that an analysis can make. `Obeys`
says what a single node records about its parts and about the symbols that it names. An analysis
derives what it makes, and every node of a derived expression obeys the rules. -/
namespace ExprCheck

/-- The type that a unary operation records: that of the operator if the operand's type is known,
and otherwise none. -/
def UnaryOp.Gives (op : UnaryOp) : ResultType → ResultType → Prop
  | .known ty, result => ∃ found, op.result? ty = some found ∧ result = .known found
  | _, result => result = .undetermined

def BinaryOp.Gives (op : BinaryOp) : ResultType → ResultType → ResultType → Prop
  | .known left, .known right, result =>
      ∃ found, op.result? left right = some found ∧ result = .known found
  | _, _, result => result = .undetermined

/-- Where the types of an argument and of its parameter are both known, they are the same. -/
def AgreesWith (params : ParamList) (args : List Expr) : Prop :=
  ∀ x ∈ params.zip args, ∀ expected found,
    x.1.2.expected = .known expected → x.2.resultType = .known found → found = expected

namespace Expr

mutual

/-- All nodes of an expression, the expression itself first. -/
def nodes : Expr → List Expr
  | .literal mark value ty => [.literal mark value ty]
  | .name mark text => [.name mark text]
  | .collection mark kind items => .collection mark kind items :: nodesOf items
  | .dict mark => [.dict mark]
  | .call mark callee args => .call mark callee args :: nodesOf args
  | .init mark callee qualified slots values =>
      .init mark callee qualified slots values :: nodesOf values
  | .unary mark op operand => .unary mark op operand :: operand.nodes
  | .binary mark op left right => .binary mark op left right :: (left.nodes ++ right.nodes)
termination_by structural e => e

def nodesOf : List Expr → List Expr
  | [] => []
  | e :: rest => e.nodes ++ nodesOf rest
termination_by structural es => es

end

theorem nodesOf_eq_flatMap (es : List Expr) : nodesOf es = es.flatMap nodes := by
  induction es with
  | nil => rfl
  | cons e rest ih => rw [nodesOf, ih, List.flatMap_cons]

theorem mem_nodesOf {n : Expr} {es : List Expr} : n ∈ nodesOf es ↔ ∃ e ∈ es, n ∈ e.nodes := by
  rw [nodesOf_eq_flatMap, List.mem_flatMap]

theorem self_mem_nodes (e : Expr) : e ∈ e.nodes := by
  cases e <;> exact List.mem_cons_self

/-- The typing rule of a node, for the literals of its source. -/
def Obeys (lookup : Lookup) (source : List Literal) : Expr → Prop
  | e@(.literal _ value ty) =>
      ∃ l ∈ source, value = l.value ∧ ty = l.ty ∧ e.resultType = .known l.ty
  | .name mark text => ∃ symbol, lookup text = some symbol ∧ mark.declared = symbol.valueType
  | e@(.collection _ kind _) => e.resultType = .known kind.ty
  | e@(.dict _) => e.resultType = .known .dict
  | .call mark callee args =>
      ∃ name params returns span, lookup callee = some (.function name params returns span) ∧
        params.required ≤ args.length ∧ args.length ≤ params.length ∧
        AgreesWith params args ∧ mark.declared = returns
  | .init mark callee qualified slots values =>
      ∃ name fields span, lookup callee = some (.struct name qualified fields span) ∧
        slots = fields.map (fun x => ⟨x.1, x.2.expected⟩) ∧ values.length = fields.length ∧
        AgreesWith fields values ∧ mark.declared = .known (.named qualified)
  | .unary mark op operand => op.Gives operand.resultType mark.declared
  | .binary mark op left right => op.Gives left.resultType right.resultType mark.declared

end Expr

namespace Analyzer

/-- The expressions that the rules derive from the literals of a source. -/
inductive Builds (a : Analyzer) (source : List Literal) : Expr → Prop
  | literal {value : Literal} (known : value ∈ source) : Builds a source (.ofLiteral a.track value)
  | name {text : String} {symbol : Symbol} (found : a.lookup text = some symbol) :
      Builds a source (.mkName a.track text symbol.valueType)
  | collection {kind : Collection} {items : List Expr} (parts : ∀ e ∈ items, Builds a source e) :
      Builds a source (.mkCollection a.track kind items)
  | dict : Builds a source (.mkDict a.track)
  | call {callee name : String} {params : ParamList} {returns : ResultType} {span : Span}
      {args : List Expr} (found : a.lookup callee = some (.function name params returns span))
      (enough : params.required ≤ args.length) (fits : args.length ≤ params.length)
      (agrees : AgreesWith params args) (parts : ∀ e ∈ args, Builds a source e) :
      Builds a source (.mkCall a.track callee args returns)
  | init {callee name qualified : String} {fields : ParamList} {span : Span} {values : List Expr}
      (found : a.lookup callee = some (.struct name qualified fields span))
      (complete : values.length = fields.length) (agrees : AgreesWith fields values)
      (parts : ∀ e ∈ values, Builds a source e) :
      Builds a source (.mkInit a.track callee qualified (slots fields) values)
  | unary {op : UnaryOp} {operand : Expr} {result : ResultType}
      (gives : op.Gives operand.resultType result) (part : Builds a source operand) :
      Builds a source (.mkUnary a.track op operand result)
  | binary {op : BinaryOp} {left right : Expr} {result : ResultType}
      (gives : op.Gives left.resultType right.resultType result) (first : Builds a source left)
      (second : Builds a source right) :
      Builds a source (.mkBinary a.track op left right result)

/-- Every node of a derived expression obeys the rules. -/
theorem Builds.obeys {a : Analyzer} {source : List Literal} {e : Expr} (h : a.Builds source e) :
    ∀ n ∈ e.nodes, n.Obeys a.lookup source := by
  induction h with
  | literal known => exact List.forall_mem_singleton.mpr ⟨_, known, rfl, rfl, rfl⟩
  | name found => exact List.forall_mem_singleton.mpr ⟨_, found, rfl⟩
  | collection parts ih =>
    refine List.forall_mem_cons.mpr ⟨rfl, fun n hn => ?_⟩
    obtain ⟨e, he, inside⟩ := Expr.mem_nodesOf.mp hn
    exact ih e he n inside
  | dict => exact List.forall_mem_singleton.mpr rfl
  | call found enough fits agrees parts ih =>
    refine List.forall_mem_cons.mpr ⟨⟨_, _, _, _, found, enough, fits, agrees, rfl⟩, fun n hn => ?_⟩
    obtain ⟨e, he, inside⟩ := Expr.mem_nodesOf.mp hn
    exact ih e he n inside
  | init found complete agrees parts ih =>
    refine List.forall_mem_cons.mpr ⟨⟨_, _, _, found, rfl, complete, agrees, rfl⟩, fun n hn => ?_⟩
    obtain ⟨e, he, inside⟩ := Expr.mem_nodesOf.mp hn
    exact ih e he n inside
  | unary gives part ih => exact List.forall_mem_cons.mpr ⟨gives, ih⟩
  | binary gives first second ihFirst ihSecond =>
    exact List.forall_mem_cons.mpr ⟨gives, List.forall_mem_append.mpr ⟨ihFirst, ihSecond⟩⟩

end Analyzer

end ExprCheck
