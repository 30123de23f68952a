import Mathlib.Algebra.GroupWithZero.Nat
import ExprCheck.Proofs.Analyzer.Builds
import ExprCheck.Proofs.Analyzer.Determined
import ExprCheck.Token.Group
/-! Warnings about types that cannot be known. An unknown type is noted where a whole expression, an
item between commas or an argument has been analyzed. The only item of brackets without a comma is
none of these. Main statement: the warnings that an analysis adds are as many as the values of
unknown type in its result, less the items of that kind. -/
namespace ExprCheck

/-! ## Values of unknown type -/

namespace Expr

def isUndetermined (e : Expr) : Bool :=
  e.resultType = .undetermined

/-- The items, arguments or field values that a node holds; operands are not among them. -/
def valueParts : Expr → List Expr
  | .collection _ _ items => items
  | .call _ _ args => args
  | .init _ _ _ _ values => values
  | .literal .. | .name .. | .dict _ | .unary .. | .binary .. => []

/-- The expression itself and all values that its nodes hold. -/
def valuePositions (e : Expr) : List Expr :=
  e :: e.nodes.flatMap valueParts

/-- How many values have no known type. -/
def unknowns (e : Expr) : Nat :=
  e.valuePositions.countP isUndetermined

/-- How many values below the expression itself have no known type. -/
def unknownsBelow (e : Expr) : Nat :=
  (e.nodes.flatMap valueParts).countP isUndetermined

theorem unknowns_eq (e : Expr) :
    e.unknowns = e.unknownsBelow + if e.isUndetermined then 1 else 0 :=
  List.countP_cons

theorem sum_unknowns (es : List Expr) :
    (es.map unknowns).sum =
      es.countP isUndetermined + ((nodesOf es).flatMap valueParts).countP isUndetermined := by
  induction es with
  | nil => rfl
  | cons e rest ih =>
    rw [List.map_cons, List.sum_cons, ih, unknowns_eq, unknownsBelow, List.countP_cons, nodesOf,
      List.flatMap_append, List.countP_append]
    omega

theorem unknownsBelow_of_parts {e : Expr} {es : List Expr} (nodes : e.nodes = e :: nodesOf es)
    (parts : e.valueParts = es) : e.unknownsBelow = (es.map unknowns).sum := by
  rw [sum_unknowns, unknownsBelow, nodes, List.flatMap_cons, parts, List.countP_append]

variable (track : Bool)

theorem unknownsBelow_mkCollection (kind : Collection) (items : List Expr) :
    (mkCollection track kind items).unknownsBelow = (items.map unknowns).sum :=
  unknownsBelow_of_parts rfl rfl

theorem unknownsBelow_mkBinary (op : BinaryOp) (left right : Expr) (ty : ResultType) :
    (mkBinary track op left right ty).unknownsBelow = left.unknownsBelow + right.unknownsBelow := by
  change ([] ++ (left.nodes ++ right.nodes).flatMap valueParts).countP isUndetermined = _
  rw [List.nil_append, List.flatMap_append, List.countP_append]
  rfl

end Expr

/-! ## Warnings -/

/-- A warning that a type cannot be known. -/
def Diagnostic.isUndetermined (d : Diagnostic) : Bool :=
  d.level == .warning && d.message == "return type cannot be determined"

namespace Log

def warnings (log : Log) : Nat :=
  log.countP fun f => f.concern = .undetermined

theorem warnings_append (first second : Log) :
    warnings (first ++ second) = first.warnings + second.warnings :=
  List.countP_append

theorem countP_diagnostics (path : String) (log : Log) :
    (log.diagnostics path).countP Diagnostic.isUndetermined = log.warnings := by
  rw [diagnostics, List.countP_map]
  refine congrArg (fun p => log.countP p) (funext fun f => ?_)
  cases concern : f.concern <;>
    simp [Diagnostic.isUndetermined, Finding.diagnostic, Finding.isError, concern]

end Log

namespace Analyzer

open Analysis

/-! ## Items that are not looked at -/

mutual

/-- How many items of a form are the only one of their brackets, without a comma, and have no known
type. A tuple between brackets has a type, so its brackets count for nothing. -/
def loneUnknowns (a : Analyzer) : Form → Nat
  | .invalid _ | .literal _ | .name .. | .empty _ => 0
  | .tuple items _ => a.loneUnknownsIn items
  | .group .paren _ inner => a.loneUnknowns inner
  | .group .square _ inner | .group .brace _ inner =>
      a.loneUnknowns inner + if (a.node inner []).1.any Expr.isUndetermined then 1 else 0
  | .call _ _ args _ => a.loneUnknownsIn args
  | .operation first rest => a.loneUnknownsUnder first + a.loneUnknownsAmong rest
termination_by structural form => form

def loneUnknownsIn (a : Analyzer) : List Part → Nat
  | [] => 0
  | .missing :: rest => a.loneUnknownsIn rest
  | .run _ form :: rest => a.loneUnknowns form + a.loneUnknownsIn rest
termination_by structural parts => parts

def loneUnknownsUnder (a : Analyzer) : Operand → Nat
  | .mk _ form => a.loneUnknowns form
termination_by structural operand => operand

def loneUnknownsAmong (a : Analyzer) : List Operation → Nat
  | [] => 0
  | .mk _ _ operand :: rest => a.loneUnknownsUnder operand + a.loneUnknownsAmong rest
termination_by structural operations => operations

end

/-! ## Steps -/

variable {a : Analyzer}

theorem conclude_warns (first? : Option Place) (expected? : Option Ty) (value : Expr) :
    (conclude first? expected? value).Yields fun e new => e.unknowns =
      value.unknownsBelow + new.warnings := by
  have plain (known : value.resultType ≠ .undetermined) :
      (pure value : Analysis Expr).Yields fun e new =>
        e.unknowns = value.unknownsBelow + new.warnings := by
    refine yields_pure ?_
    rw [Expr.unknowns_eq, if_neg (by simpa [Expr.isUndetermined] using known)]
    rfl
  unfold conclude
  split
  · rename_i found expected known
    split
    · exact plain (by simp [known])
    · exact yields_fail
  · rename_i unknown
    have noted : (note .undetermined first?).Yields fun _ new => new.warnings = 1 :=
      ensures_note fun _ _ => rfl
    refine noted.bind fun _ before once => yields_pure ?_
    rw [List.append_nil, once, Expr.unknowns_eq,
      if_pos (by simpa [Expr.isUndetermined] using unknown)]
  · rename_i notUnknown others
    exact plain notUnknown

theorem applyUnary_warns (op : UnaryOp) (place : Place) (operand : Expr) :
    (a.applyUnary op place operand).Yields fun e new =>
      e.unknownsBelow = operand.unknownsBelow + new.warnings := by
  unfold applyUnary
  split
  · split
    · exact yields_pure rfl
    · exact yields_fail
  · exact yields_pure rfl

theorem applySigns_warns (signs : List (UnaryOp × Place)) (value : Expr) :
    (a.applySigns signs value).Yields fun e new =>
      e.unknownsBelow = value.unknownsBelow + new.warnings := by
  induction signs with
  | nil => exact yields_pure rfl
  | cons sign signs ih =>
    refine ih.bind fun inner before counted =>
      (applyUnary_warns sign.1 sign.2 inner).imp fun e new applied => ?_
    rw [applied, counted, Log.warnings_append, Nat.add_assoc]

theorem applyBinary_warns (op : BinaryOp) (place : Place) (left right : Expr) :
    (a.applyBinary op place left right).Yields fun e new =>
      e.unknownsBelow = left.unknownsBelow + right.unknownsBelow + new.warnings := by
  unfold applyBinary
  split
  · split
    · exact yields_pure (Expr.unknownsBelow_mkBinary ..)
    · exact yields_fail
  · exact yields_pure (Expr.unknownsBelow_mkBinary ..)

theorem applyTree_warns (tree : OpTree Expr) :
    (a.applyTree tree).Yields fun e new =>
      e.unknownsBelow = (tree.leaves.map Expr.unknownsBelow).sum + new.warnings := by
  induction tree with
  | leaf value => exact yields_pure rfl
  | node op place left right ihLeft ihRight =>
    refine ihLeft.bind fun l first countedLeft => ihRight.bind fun r second countedRight =>
      (applyBinary_warns op place l r).imp fun e new applied => ?_
    rw [applied, countedLeft, countedRight, OpTree.leaves, List.map_append, List.sum_append,
      Log.warnings_append, Log.warnings_append]
    omega

theorem compareArgument_warns (param : ParamSpec) (first : Place) (value : Expr) :
    (compareArgument param first value).Yields fun _ new => new.warnings = 0 := by
  unfold compareArgument
  split
  · split
    · exact yields_pure rfl
    · exact ensures_note fun _ _ => rfl
  · exact yields_pure rfl

theorem checkArguments_warns (name : String) (params : ParamList) (required : Nat)
    (args : List Part) (paren : Place) :
    (checkArguments name params required args paren).Yields fun _ new => new.warnings = 0 := by
  unfold checkArguments checkCount
  split
  · exact yields_fail
  · split
    · exact yields_fail
    · split
      · exact yields_fail
      · exact yields_pure rfl

theorem passArguments_warns {name : String} {params : ParamList} {required : Nat}
    {args : List Part} {paren : Place} {arguments : Analysis (List Expr)}
    {make : List Expr → Expr} {lone : Nat}
    (made : anyMissing args = false → args.length ≤ params.length →
      arguments.Yields fun values new => (values.map Expr.unknowns).sum = lone + new.warnings)
    (below : ∀ values, (make values).unknownsBelow = (values.map Expr.unknowns).sum) :
    (checkArguments name params required args paren >>= fun _ =>
      arguments.whole >>= fun values => pure (make values)).Yields fun e new =>
        e.unknownsBelow = lone + new.warnings := by
  have checked := (checkArguments_yields name params required args paren).and
    (checkArguments_warns name params required args paren)
  refine checked.bind fun _ before ⟨⟨complete, fits, _⟩, silent⟩ => ?_
  refine ((made complete fits).whole fun _ _ counted _ => counted).bind fun values _ counted => ?_
  refine yields_pure ?_
  rw [below, counted, Log.warnings_append, silent, List.append_nil, Nat.zero_add]

theorem single_warns {content : Analysis Expr} {lone : Nat} (kind : Collection)
    (determined : content.Determined)
    (counted : content.Yields fun e new => e.unknownsBelow = lone + new.warnings) :
    (content >>= fun value => pure (Expr.mkCollection a.track kind [value])).Yields fun e new =>
      e.unknownsBelow =
        lone + (if (content []).1.any Expr.isUndetermined then 1 else 0) + new.warnings := by
  refine (counted.and determined.answers).bind fun value before ⟨below, alone⟩ => yields_pure ?_
  rw [Expr.unknownsBelow_mkCollection, List.map_singleton, List.sum_singleton, Expr.unknowns_eq,
    below, alone, Option.any_some, List.append_nil]
  omega

/-! ## Forms -/

theorem node_tuple_any (items : List Part) (place : Place) :
    ((a.node (.tuple items place)) []).1.any Expr.isUndetermined = false := by
  cases made : ((a.node (.tuple items place)) []).1 with
  | none => rfl
  | some e =>
    obtain ⟨values, -, same⟩ := bind_eq_some_iff.mp made
    cases same
    rfl

theorem node_determined (form : Form) : (a.node form).Determined := by
  have composed : Composed (fun _ => True) false (a.node form) :=
    a.node_composed (fun _ _ => trivial) form (.inl trivial)
  exact composed.determined

mutual

theorem node_warns (form : Form) :
    (a.node form).Yields fun e new => e.unknownsBelow = a.loneUnknowns form + new.warnings := by
  cases form with
  | invalid at? => exact yields_fail
  | literal value => exact yields_pure rfl
  | name text last? =>
    unfold node nameNode
    split
    · exact yields_pure rfl
    · exact yields_fail
  | tuple items place =>
    exact (itemNodes_warns place items).bind fun values before counted => yields_pure (by
      rw [Expr.unknownsBelow_mkCollection, counted, List.append_nil, loneUnknowns])
  | empty bracket => cases bracket <;> exact yields_pure rfl
  | group bracket first inner =>
    have content := node_warns inner
    cases bracket with
    | paren => exact content
    | square | brace =>
      cases inner with
      | tuple items place =>
        refine (itemNodes_warns place items).bind fun values before counted => yields_pure ?_
        rw [Expr.unknownsBelow_mkCollection, counted, List.append_nil, loneUnknowns, loneUnknowns,
          node_tuple_any]
        rfl
      | _ => exact single_warns _ (node_determined _) content
  | call callee last? args paren =>
    unfold node
    split
    · exact passArguments_warns (fun complete fits => argumentNodes_warns _ args complete fits)
        fun _ => Expr.unknownsBelow_of_parts rfl rfl
    · exact passArguments_warns (fun complete fits => argumentNodes_warns _ args complete fits)
        fun _ => Expr.unknownsBelow_of_parts rfl rfl
    · exact yields_fail
  | operation first rest =>
    refine (operandNode_warns first).bind fun head before countedHead => ?_
    refine (operationNodes_warns rest).bind fun tail after countedTail => ?_
    refine (applyTree_warns (.ofChain head tail)).imp fun e new applied => ?_
    rw [applied, OpTree.leaves_ofChain, List.map_cons, List.sum_cons, countedHead,
      List.map_map, Function.comp_def, countedTail, loneUnknowns, Log.warnings_append,
      Log.warnings_append]
    omega
termination_by structural form

theorem itemNodes_warns (place : Place) (items : List Part) :
    (a.itemNodes place items).Yields fun values new =>
      (values.map Expr.unknowns).sum = a.loneUnknownsIn items + new.warnings := by
  cases items with
  | nil => exact yields_pure rfl
  | cons part rest =>
    cases part with
    | missing => exact yields_fail
    | run first form =>
      refine (node_warns form).bind fun value before below => ?_
      refine (conclude_warns first none value).bind fun value' noted here => ?_
      refine (itemNodes_warns place rest).bind fun values after counted => yields_pure ?_
      rw [List.map_cons, List.sum_cons, here, below, counted, loneUnknownsIn, List.append_nil,
        Log.warnings_append, Log.warnings_append]
      omega
termination_by structural items

theorem argumentNodes_warns (params : ParamList) (args : List Part)
    (complete : anyMissing args = false) (fits : args.length ≤ params.length) :
    (a.argumentNodes params args).Yields fun values new =>
      (values.map Expr.unknowns).sum = a.loneUnknownsIn args + new.warnings := by
  cases args with
  | nil => cases params <;> exact yields_pure rfl
  | cons part rest =>
    cases params with
    | nil => simp at fits
    | cons param params =>
      cases part with
      | missing => cases complete
      | run first form =>
        refine (node_warns form).bind fun value before below => ?_
        refine (conclude_warns first none value).bind fun value' noted here => ?_
        refine (compareArgument_warns param.2 first value').bind fun _ compared silent => ?_
        refine (argumentNodes_warns params rest complete (Nat.le_of_succ_le_succ fits)).bind
          fun values after counted => yields_pure ?_
        rw [List.map_cons, List.sum_cons, here, below, counted, loneUnknownsIn, List.append_nil,
          Log.warnings_append, Log.warnings_append, Log.warnings_append, silent]
        omega
termination_by structural args

theorem operandNode_warns (operand : Operand) :
    (a.operandNode operand).Yields fun e new =>
      e.unknownsBelow = a.loneUnknownsUnder operand + new.warnings := by
  cases operand with
  | mk signs form =>
    refine (node_warns form).bind fun value before below =>
      (applySigns_warns signs value).imp fun e new signed => ?_
    rw [signed, below, loneUnknownsUnder, Log.warnings_append, Nat.add_assoc]
termination_by structural operand

theorem operationNodes_warns (operations : List Operation) :
    (a.operationNodes operations).Yields fun values new =>
      (values.map fun x => x.2.2.unknownsBelow).sum =
        a.loneUnknownsAmong operations + new.warnings := by
  cases operations with
  | nil => exact yields_pure rfl
  | cons operation rest =>
    cases operation with
    | mk op place operand =>
      refine (operandNode_warns operand).bind fun value before here => ?_
      refine (operationNodes_warns rest).bind fun values after counted => yields_pure ?_
      rw [List.map_cons, List.sum_cons, here, counted, loneUnknownsAmong, List.append_nil,
        Log.warnings_append]
      omega
termination_by structural operations

end

/-- The values of unknown type in the result of an analysis are those it has warned of, each once,
and the only items of brackets without a comma. -/
theorem unknowns_of_analyze (a : Analyzer) (expected? : Option Ty) (run : List Token) (log : Log)
    (e : Expr) (made : (a.analyze expected? run log).1 = some e) :
    ∃ added, (a.analyze expected? run log).2 = log ++ added ∧
      ∀ path, e.valuePositions.countP Expr.isUndetermined =
        (added.diagnostics path).countP Diagnostic.isUndetermined +
          a.loneUnknowns (.ofTokens run) := by
  have counts : (a.analyze expected? run).Yields fun e new =>
      e.unknowns = a.loneUnknowns (.ofTokens run) + new.warnings := by
    refine (node_warns (.ofTokens run)).bind fun value before below => ?_
    refine (conclude_warns (firstPlace? run) expected? value).imp fun e new settled => ?_
    rw [settled, below, Log.warnings_append, Nat.add_assoc]
  obtain ⟨added, appended, counted⟩ := counts log
  refine ⟨added, appended, fun path => ?_⟩
  rw [Log.countP_diagnostics, Nat.add_comm]
  exact counted e made

/-- Every name stands for something whose type is not known. -/
def untyped : Analyzer :=
  ⟨fun name => some (.var name .undetermined (.point 0)), false⟩

/-- The tokens of `[x], y`. -/
def bracketsBeforeName : List Token :=
  [.tuple [[.group .square [.leaf (.name "x") ⟨⟨1, 2⟩, 1⟩] ⟨⟨0, 3⟩, 1⟩],
    [.leaf (.name "y") ⟨⟨5, 6⟩, 1⟩]] ⟨⟨0, 6⟩, 1⟩]

theorem unknowns_bracketsBeforeName :
    ∃ e added, (untyped.analyze none bracketsBeforeName []).1 = some e ∧
      untyped.loneUnknowns (.ofTokens bracketsBeforeName) = 1 ∧
      (untyped.analyze none bracketsBeforeName []).2 = added ∧
      ∀ path, e.valuePositions.countP Expr.isUndetermined =
        (added.diagnostics path).countP Diagnostic.isUndetermined + 1 := by
  have made : (untyped.analyze none bracketsBeforeName []).1 = some (.mkCollection false .tuple
      [.mkCollection false .list [.mkName false "x" .undetermined],
        .mkName false "y" .undetermined]) := rfl
  obtain ⟨added, appended, counted⟩ := unknowns_of_analyze untyped none bracketsBeforeName [] _ made
  exact ⟨_, added, made, rfl, appended, counted⟩

/-- Between brackets alone a name of unknown type draws no warning; with a comma behind it, it
does. -/
theorem not_warned_in_brackets :
    ∃ alone beside e log, tokenize "[x]" = .ok (alone ++ [.leaf .endMarker ⟨.point 3, 1⟩]) ∧
      tokenize "[x,]" = .ok (beside ++ [.leaf .endMarker ⟨.point 4, 1⟩]) ∧
      untyped.analyze none alone [] = (some e, []) ∧
      untyped.analyze none beside [] = (some e, log) ∧
      ¬ e.valuePositions.countP Expr.isUndetermined =
        (Log.diagnostics "" []).countP Diagnostic.isUndetermined ∧
      e.valuePositions.countP Expr.isUndetermined =
        (Log.diagnostics "" log).countP Diagnostic.isUndetermined := by
  let x : Token := .leaf (.name "x") ⟨⟨1, 2⟩, 1⟩
  refine ⟨[.group .square [x] ⟨⟨0, 3⟩, 1⟩],
    [.group .square [.tuple [[x], []] ⟨⟨1, 3⟩, 1⟩] ⟨⟨0, 4⟩, 1⟩],
    .mkCollection false .list [.mkName false "x" .undetermined],
    [⟨.undetermined, some ⟨⟨1, 2⟩, 1⟩⟩], by with_unfolding_all rfl, by with_unfolding_all rfl,
    rfl, rfl, ?_, ?_⟩
  · decide
  · decide

end Analyzer

end ExprCheck
