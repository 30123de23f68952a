import ExprCheck.Analyzer
import ExprCheck.Proofs.Analysis
import ExprCheck.Proofs.Form
/-! The steps that an analysis consists of. Every analysis of a form is composed of steps that give
up with a fault, warnings, and the comparisons of arguments inside a call. An invalid form is the
only cause of a syntax error, so a form of a value has none. -/
namespace ExprCheck.Analyzer

open Analysis

/-- `F` holds of every fault but perhaps those of the form. -/
def Admits (F : Fault → Prop) : Prop :=
  ∀ fault, fault.kind ≠ .syntaxError → F fault

variable {F : Fault → Prop} {lenient : Bool}

theorem nameNode_composed (a : Analyzer) (admits : Admits F) (text : String)
    (last? : Option Place) : Composed F lenient (a.nameNode text last?) := by
  unfold nameNode
  split
  · exact .pure _
  · exact .fail _ (admits _ (by simp [Fault.kind]))

theorem conclude_composed (admits : Admits F) (first? : Option Place) (expected? : Option Ty)
    (value : Expr) : Composed F lenient (conclude first? expected? value) := by
  unfold conclude
  split
  · split
    · exact .pure _
    · exact .fail _ (admits _ (by simp [Fault.kind]))
  · exact .bind (.warn _) fun _ => .pure _
  · exact .pure _

theorem applyUnary_composed (a : Analyzer) (admits : Admits F) (op : UnaryOp) (place : Place)
    (operand : Expr) : Composed F lenient (a.applyUnary op place operand) := by
  unfold applyUnary
  split
  · split
    · exact .pure _
    · exact .fail _ (admits _ (by simp [Fault.kind]))
  · exact .pure _

theorem applySigns_composed (a : Analyzer) (admits : Admits F) (signs : List (UnaryOp × Place))
    (value : Expr) : Composed F lenient (a.applySigns signs value) := by
  induction signs with
  | nil => exact .pure _
  | cons sign signs ih => exact .bind ih fun _ => a.applyUnary_composed admits ..

theorem applyBinary_composed (a : Analyzer) (admits : Admits F) (op : BinaryOp) (place : Place)
    (left right : Expr) : Composed F lenient (a.applyBinary op place left right) := by
  unfold applyBinary
  split
  · split
    · exact .pure _
    · exact .fail _ (admits _ (by simp [Fault.kind]))
  · exact .pure _

theorem applyTree_composed (a : Analyzer) (admits : Admits F) (tree : OpTree Expr) :
    Composed F lenient (a.applyTree tree) := by
  induction tree with
  | leaf value => exact .pure _
  | node op place left right ihLeft ihRight =>
    exact .bind ihLeft fun _ => .bind ihRight fun _ => a.applyBinary_composed admits ..

theorem compareArgument_composed (admits : Admits F) (param : ParamSpec) (first : Place)
    (value : Expr) : Composed F true (compareArgument param first value) := by
  unfold compareArgument
  split
  · split
    · exact .pure _
    · exact .mismatch _ (admits _ (by simp [Fault.kind]))
  · exact .pure _

theorem checkArguments_composed (admits : Admits F) (name : String) (params : ParamList)
    (required : Nat) (args : List Part) (paren : Place)
    (ok : F .invalidForm ∨ anyMissing args = false) :
    Composed F lenient (checkArguments name params required args paren) := by
  unfold checkArguments checkCount
  split
  · rename_i missing
    rcases ok with ok | ok
    · exact .fail _ ok
    · rw [ok] at missing
      cases missing
  · split
    · exact .fail _ (admits _ (by simp [Fault.kind]))
    · split
      · exact .fail _ (admits _ (by simp [Fault.kind]))
      · exact .pure _

theorem anyMissing_of_allValues {lookup : Lookup} {args : List Part}
    (values : Part.AllValues lookup args) : anyMissing args = false := by
  induction args with
  | nil => rfl
  | cons part rest ih =>
    cases part with
    | missing => exact values.elim
    | run first form => exact ih values.2

mutual

theorem node_composed {lenient : Bool} (a : Analyzer) (admits : Admits F) (form : Form)
    (ok : F .invalidForm ∨ form.IsValue a.lookup) : Composed F lenient (a.node form) := by
  cases form with
  | invalid at? => exact .fail _ (ok.resolve_right id)
  | literal value => exact .pure _
  | name text last? => exact a.nameNode_composed admits ..
  | tuple items place => exact .bind (itemNodes_composed a admits place items ok) fun _ => .pure _
  | empty bracket => cases bracket <;> exact .pure _
  | group bracket first inner =>
    have content : Composed F lenient (a.node inner) := node_composed a admits inner ok
    cases bracket with
    | paren => exact content
    | square | brace =>
      cases inner with
      | tuple items place =>
        exact .bind (itemNodes_composed a admits place items ok) fun _ => .pure _
      | _ => exact .bind content fun _ => .pure _
  | call callee last? args paren =>
    have complete : F .invalidForm ∨ anyMissing args = false := ok.imp_right anyMissing_of_allValues
    unfold node
    split
    · exact .bind (checkArguments_composed admits _ _ _ _ _ complete) fun _ =>
        .bind (.whole (argumentNodes_composed a admits _ args ok)) fun _ => .pure _
    · exact .bind (checkArguments_composed admits _ _ _ _ _ complete) fun _ =>
        .bind (.whole (argumentNodes_composed a admits _ args ok)) fun _ => .pure _
    · exact .fail _ (admits _ (by simp [Fault.kind]))
  | operation first rest =>
    exact .bind (operandNode_composed a admits first (ok.imp_right And.left)) fun _ =>
      .bind (operationNodes_composed a admits rest (ok.imp_right And.right)) fun _ =>
        a.applyTree_composed admits _
termination_by structural form

theorem itemNodes_composed {lenient : Bool} (a : Analyzer) (admits : Admits F) (place : Place)
    (items : List Part) (ok : F .invalidForm ∨ Part.AllValues a.lookup items) :
    Composed F lenient (a.itemNodes place items) := by
  cases items with
  | nil => exact .pure _
  | cons part rest =>
    cases part with
    | missing => exact .fail _ (ok.resolve_right id)
    | run first form =>
      exact .bind (node_composed a admits form (ok.imp_right And.left)) fun _ =>
        .bind (conclude_composed admits ..) fun _ =>
          .bind (itemNodes_composed a admits place rest (ok.imp_right And.right)) fun _ => .pure _
termination_by structural items

theorem argumentNodes_composed (a : Analyzer) (admits : Admits F) (params : ParamList)
    (args : List Part) (ok : F .invalidForm ∨ Part.AllValues a.lookup args) :
    Composed F true (a.argumentNodes params args) := by
  cases args with
  | nil => cases params <;> exact .pure _
  | cons part rest =>
    cases params with
    | nil => exact .pure _
    | cons param params =>
      cases part with
      | missing => exact .pure _
      | run first form =>
        exact .bind (node_composed a admits form (ok.imp_right And.left)) fun _ =>
          .bind (conclude_composed admits ..) fun _ =>
            .bind (compareArgument_composed admits ..) fun _ =>
              .bind (argumentNodes_composed a admits params rest (ok.imp_right And.right)) fun _ =>
                .pure _
termination_by structural args

theorem operandNode_composed {lenient : Bool} (a : Analyzer) (admits : Admits F) (operand : Operand)
    (ok : F .invalidForm ∨ operand.IsValue a.lookup) :
    Composed F lenient (a.operandNode operand) := by
  cases operand with
  | mk signs form =>
    exact .bind (node_composed a admits form ok) fun _ => a.applySigns_composed admits ..
termination_by structural operand

theorem operationNodes_composed {lenient : Bool} (a : Analyzer) (admits : Admits F)
    (operations : List Operation) (ok : F .invalidForm ∨ Operation.AllValues a.lookup operations) :
    Composed F lenient (a.operationNodes operations) := by
  cases operations with
  | nil => exact .pure _
  | cons operation rest =>
    cases operation with
    | mk op place operand =>
      exact .bind (operandNode_composed a admits operand (ok.imp_right And.left)) fun _ =>
        .bind (operationNodes_composed a admits rest (ok.imp_right And.right)) fun _ => .pure _
termination_by structural operations

end

/-- The analysis of a run is composed of such steps. -/
theorem analyze_composed (a : Analyzer) (admits : Admits F) (expected? : Option Ty)
    (run : List Token) (ok : F .invalidForm ∨ (Form.ofTokens run).IsValue a.lookup) :
    Composed F lenient (a.analyze expected? run) :=
  .bind (a.node_composed admits _ ok) fun _ => conclude_composed admits ..

end ExprCheck.Analyzer
