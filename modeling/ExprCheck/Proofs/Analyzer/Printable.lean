import ExprCheck.Proofs.Analyzer.Builds
import ExprCheck.Proofs.Form.Regular
/-! What an analysis of a source makes. Tokens can be written down that are read as any node but two
kinds: one that names something by a reserved word, and an empty set, whose brackets are those of a
dictionary. Main statement: an analysis of a regular form makes no such node. -/
namespace ExprCheck

/-- There are tokens that are read as the node. -/
def Expr.Printable : Expr → Prop
  | name _ text => Unreserved text
  | collection _ kind items => kind = .set → items ≠ []
  | call _ callee _ | init _ callee _ _ _ => Unreserved callee
  | literal .. | dict _ | unary .. | binary .. => True

namespace Analyzer

open Analysis

variable {a : Analyzer}

/-- Every node of the expression is printable. -/
def AllPrintable (e : Expr) : Prop :=
  ∀ n ∈ e.nodes, n.Printable

theorem allPrintable_nodesOf_iff {es : List Expr} :
    (∀ n ∈ Expr.nodesOf es, n.Printable) ↔ ∀ e ∈ es, AllPrintable e := by
  constructor
  · intro h e among n inside
    exact h n (Expr.mem_nodesOf.mpr ⟨e, among, inside⟩)
  · intro h n mem
    obtain ⟨e, among, inside⟩ := Expr.mem_nodesOf.mp mem
    exact h e among n inside

theorem nameNode_printable {text : String} (free : Unreserved text) (last? : Option Place) :
    (a.nameNode text last?).Yields fun e _ => AllPrintable e := by
  unfold nameNode
  split
  · exact yields_pure (List.forall_mem_singleton.mpr free)
  · exact yields_fail

theorem applyUnary_printable (op : UnaryOp) (place : Place) {operand : Expr}
    (part : AllPrintable operand) :
    (a.applyUnary op place operand).Yields fun e _ => AllPrintable e := by
  have made : ∀ result, AllPrintable (.mkUnary a.track op operand result) := fun _ =>
    List.forall_mem_cons.mpr ⟨trivial, part⟩
  unfold applyUnary
  split
  · split
    · exact yields_pure (made _)
    · exact yields_fail
  · exact yields_pure (made _)

theorem applySigns_printable (signs : List (UnaryOp × Place)) {value : Expr}
    (part : AllPrintable value) :
    (a.applySigns signs value).Yields fun e _ => AllPrintable e := by
  induction signs with
  | nil => exact yields_pure part
  | cons sign signs ih => exact ih.bind fun _ _ operand => applyUnary_printable _ _ operand

theorem applyBinary_printable (op : BinaryOp) (place : Place) {left right : Expr}
    (first : AllPrintable left) (second : AllPrintable right) :
    (a.applyBinary op place left right).Yields fun e _ => AllPrintable e := by
  have made : ∀ result, AllPrintable (.mkBinary a.track op left right result) := fun _ =>
    List.forall_mem_cons.mpr ⟨trivial, List.forall_mem_append.mpr ⟨first, second⟩⟩
  unfold applyBinary
  split
  · split
    · exact yields_pure (made _)
    · exact yields_fail
  · exact yields_pure (made _)

theorem applyTree_printable {tree : OpTree Expr} (parts : ∀ e ∈ tree.leaves, AllPrintable e) :
    (a.applyTree tree).Yields fun e _ => AllPrintable e := by
  induction tree with
  | leaf value => exact yields_pure (parts value (by simp [OpTree.leaves]))
  | node op place left right ihLeft ihRight =>
    obtain ⟨inLeft, inRight⟩ := List.forall_mem_append.mp parts
    exact (ihLeft inLeft).bind fun _ _ first => (ihRight inRight).bind fun _ _ second =>
      applyBinary_printable _ _ first second

theorem collection_printable {kind : Collection} {items : List Expr}
    (parts : ∀ e ∈ items, AllPrintable e) (some : kind = .set → items ≠ []) :
    AllPrintable (.mkCollection a.track kind items) :=
  List.forall_mem_cons.mpr ⟨some, allPrintable_nodesOf_iff.mpr parts⟩

theorem passArguments_printable {name : String} {params : ParamList} {required : Nat}
    {args : List Part} {paren : Place} {arguments : Analysis (List Expr)}
    {make : List Expr → Expr}
    (parts : arguments.Yields fun values _ => ∀ e ∈ values, AllPrintable e)
    (made : ∀ values, (∀ e ∈ values, AllPrintable e) → AllPrintable (make values)) :
    (checkArguments name params required args paren >>= fun _ =>
      arguments.whole >>= fun values => pure (make values)).Yields fun e _ => AllPrintable e := by
  refine (checkArguments_yields name params required args paren).bind fun _ _ _ => ?_
  have checked : arguments.whole.Yields fun values _ => ∀ e ∈ values, AllPrintable e :=
    parts.whole fun _ _ values _ => values
  exact checked.bind fun values _ printable => yields_pure (made values printable)

mutual

theorem node_printable {form : Form} (regular : form.Regular) :
    (a.node form).Yields fun e _ => AllPrintable e := by
  cases form with
  | invalid at? => exact yields_fail
  | literal value => exact yields_pure (List.forall_mem_singleton.mpr trivial)
  | name text last? => exact nameNode_printable regular last?
  | tuple items place =>
    refine (itemNodes_printable place regular.2).bind fun values _ parts => ?_
    exact yields_pure (collection_printable parts.2 nofun)
  | empty bracket =>
    cases bracket with
    | paren | square => exact yields_pure (collection_printable nofun nofun)
    | brace => exact yields_pure (List.forall_mem_singleton.mpr trivial)
  | group bracket first inner =>
    have content : (a.node inner).Yields fun e _ => AllPrintable e := node_printable regular
    cases bracket with
    | paren => exact content
    | square | brace =>
      cases inner with
      | tuple items place =>
        refine (itemNodes_printable place regular.2).bind fun values _ parts => ?_
        exact yields_pure (collection_printable parts.2 fun _ => parts.1 regular.1)
      | _ =>
        refine content.bind fun value _ part => ?_
        have single := List.forall_mem_singleton.mpr part
        exact yields_pure (collection_printable single fun _ => List.cons_ne_nil _ _)
  | call callee last? args paren =>
    obtain ⟨free, regularArgs⟩ := regular
    unfold node
    split
    · rename_i name params returns span found
      refine passArguments_printable (argumentNodes_printable params regularArgs) ?_
      exact fun values parts => List.forall_mem_cons.mpr ⟨free, allPrintable_nodesOf_iff.mpr parts⟩
    · rename_i name qualified fields span found
      refine passArguments_printable (argumentNodes_printable fields regularArgs) ?_
      exact fun values parts => List.forall_mem_cons.mpr ⟨free, allPrintable_nodesOf_iff.mpr parts⟩
    · exact yields_fail
  | operation first rest =>
    refine (operandNode_printable regular.1).bind fun head _ here => ?_
    refine (operationNodes_printable regular.2).bind fun tail _ below => ?_
    apply applyTree_printable
    rw [OpTree.leaves_ofChain]
    exact List.forall_mem_cons.mpr ⟨here, below⟩
termination_by structural form

theorem itemNodes_printable (place : Place) {items : List Part} (regular : Part.AllRegular items) :
    (a.itemNodes place items).Yields fun values _ =>
      (items ≠ [] → values ≠ []) ∧ ∀ e ∈ values, AllPrintable e := by
  cases items with
  | nil => exact yields_pure ⟨fun some => absurd rfl some, nofun⟩
  | cons part rest =>
    cases part with
    | missing => exact yields_fail
    | run first form =>
      refine (node_printable regular.1).bind fun value _ here => ?_
      refine (conclude_yields first none value).bind fun value' _ settled => ?_
      refine (itemNodes_printable place regular.2).bind fun values _ parts => ?_
      refine yields_pure ⟨fun _ => List.cons_ne_nil _ _, ?_⟩
      exact List.forall_mem_cons.mpr ⟨settled.1 ▸ here, parts.2⟩
termination_by structural items

theorem argumentNodes_printable (params : ParamList) {args : List Part}
    (regular : Part.AllRegular args) :
    (a.argumentNodes params args).Yields fun values _ => ∀ e ∈ values, AllPrintable e := by
  cases args with
  | nil => cases params <;> exact yields_pure nofun
  | cons part rest =>
    cases params with
    | nil => cases part <;> exact yields_pure nofun
    | cons param params =>
      cases part with
      | missing => exact yields_pure nofun
      | run first form =>
        refine (node_printable regular.1).bind fun value _ here => ?_
        refine (conclude_yields first none value).bind fun value' _ settled => ?_
        refine (compareArgument_yields param.2 first value').bind fun _ _ _ => ?_
        refine (argumentNodes_printable params regular.2).bind fun values _ parts => ?_
        exact yields_pure (List.forall_mem_cons.mpr ⟨settled.1 ▸ here, parts⟩)
termination_by structural args

theorem operandNode_printable {operand : Operand} (regular : operand.Regular) :
    (a.operandNode operand).Yields fun e _ => AllPrintable e := by
  cases operand with
  | mk signs form =>
    exact (node_printable regular).bind fun value _ part => applySigns_printable signs part
termination_by structural operand

theorem operationNodes_printable {operations : List Operation}
    (regular : Operation.AllRegular operations) :
    (a.operationNodes operations).Yields fun values _ =>
      ∀ e ∈ values.map (·.2.2), AllPrintable e := by
  cases operations with
  | nil => exact yields_pure nofun
  | cons operation rest =>
    cases operation with
    | mk op place operand =>
      refine (operandNode_printable regular.1).bind fun value _ here => ?_
      refine (operationNodes_printable regular.2).bind fun values _ below => ?_
      exact yields_pure (List.forall_mem_cons.mpr ⟨here, below⟩)
termination_by structural operations

end

/-- An analysis of regular tokens makes printable nodes only. -/
theorem analyze_printable (expected? : Option Ty) {run : List Token}
    (regular : ∀ t ∈ run, t.Regular) :
    (a.analyze expected? run).Yields fun e _ => AllPrintable e := by
  refine (node_printable (Form.regular_ofTokens regular)).bind fun value _ printable => ?_
  refine (conclude_yields (firstPlace? run) expected? value).mono fun _ _ settled e same => ?_
  exact (settled e same).1 ▸ printable

end Analyzer

end ExprCheck
