import ExprCheck.Analyzer
import ExprCheck.Proofs.Analysis
import ExprCheck.Proofs.Form.Located
import ExprCheck.Proofs.OpTree
/-! Where findings lie. A fault or a warning is logged at a place that the form has for it. Main
statement: the analysis of a run logs only at places of tokens that stand in the run. -/
namespace ExprCheck

namespace Analysis

variable {α β : Type} {P : Place → Prop}

/-- All that the step logs is at places of the class. -/
def Locates (P : Place → Prop) (m : Analysis α) : Prop :=
  m.Ensures fun _ new => ∀ f ∈ new, Marked P f.place?

theorem locates_pure (x : α) : (pure x : Analysis α).Locates P :=
  ensures_pure (List.forall_mem_nil _)

theorem locates_fail {place? : Option Place} (marked : Marked P place?) (fault : Fault) :
    (fail fault place? : Analysis α).Locates P :=
  ensures_fail (List.forall_mem_singleton.mpr marked)

theorem locates_note {place? : Option Place} (marked : Marked P place?) (concern : Concern) :
    (note concern place?).Locates P :=
  ensures_note (List.forall_mem_singleton.mpr marked)

theorem Locates.bind {m : Analysis α} {f : α → Analysis β} (h : m.Locates P)
    (next : ∀ x, (f x).Locates P) : (m >>= f).Locates P :=
  Ensures.bind h (fun _ logged => logged) fun x _ logged =>
    (next x).mono fun _ _ logged' => List.forall_mem_append.mpr ⟨logged, logged'⟩

theorem Locates.whole {m : Analysis α} (h : m.Locates P) : m.whole.Locates P :=
  Ensures.whole h (fun _ logged => logged) (fun _ _ logged _ => logged) fun _ _ logged _ => logged

end Analysis

namespace Analyzer

open Analysis

variable {P : Place → Prop}

theorem nameNode_locates (a : Analyzer) (text : String) {last? : Option Place}
    (marked : Marked P last?) : (a.nameNode text last?).Locates P := by
  unfold nameNode
  split
  · exact locates_pure _
  · exact locates_fail marked _

theorem conclude_locates {first? : Option Place} (marked : Marked P first?)
    (expected? : Option Ty) (value : Expr) : (conclude first? expected? value).Locates P := by
  unfold conclude
  split
  · split
    · exact locates_pure _
    · exact locates_fail marked _
  · exact (locates_note marked _).bind fun _ => locates_pure _
  · exact locates_pure _

theorem applyUnary_locates (a : Analyzer) (op : UnaryOp) {place : Place} (here : P place)
    (operand : Expr) : (a.applyUnary op place operand).Locates P := by
  unfold applyUnary
  split
  · split
    · exact locates_pure _
    · exact locates_fail (.of_place here) _
  · exact locates_pure _

theorem applySigns_locates (a : Analyzer) {signs : List (UnaryOp × Place)}
    (here : ∀ s ∈ signs, P s.2) (value : Expr) : (a.applySigns signs value).Locates P := by
  induction signs with
  | nil => exact locates_pure _
  | cons sign signs ih =>
    obtain ⟨first, below⟩ := List.forall_mem_cons.mp here
    exact (ih below).bind fun _ => a.applyUnary_locates sign.1 first _

theorem applyBinary_locates (a : Analyzer) (op : BinaryOp) {place : Place} (here : P place)
    (left right : Expr) : (a.applyBinary op place left right).Locates P := by
  unfold applyBinary
  split
  · split
    · exact locates_pure _
    · exact locates_fail (.of_place here) _
  · exact locates_pure _

theorem applyTree_locates (a : Analyzer) {tree : OpTree Expr}
    (here : ∀ x ∈ tree.inOrder.2, P x.2.1) : (a.applyTree tree).Locates P := by
  induction tree with
  | leaf value => exact locates_pure _
  | node op place left right ihLeft ihRight =>
    obtain ⟨before, behind⟩ := List.forall_mem_append.mp here
    obtain ⟨root, after⟩ := List.forall_mem_cons.mp behind
    exact (ihLeft before).bind fun _ => (ihRight after).bind fun _ =>
      a.applyBinary_locates op root _ _

theorem compareArgument_locates (param : ParamSpec) {first : Place} (here : P first)
    (value : Expr) : (compareArgument param first value).Locates P := by
  unfold compareArgument
  split
  · split
    · exact locates_pure _
    · exact locates_note (.of_place here) _
  · exact locates_pure _

theorem checkArguments_locates (name : String) (params : ParamList) (required : Nat)
    (args : List Part) {paren : Place} (here : P paren) :
    (checkArguments name params required args paren).Locates P := by
  unfold checkArguments checkCount
  split
  · exact locates_fail (.of_place here) _
  split
  · exact locates_fail (.of_place here) _
  split
  · exact locates_fail (.of_place here) _
  · exact locates_pure _

mutual

theorem node_locates (a : Analyzer) {form : Form} (h : form.Located P) :
    (a.node form).Locates P := by
  cases form with
  | invalid at? => exact locates_fail h _
  | literal value => exact locates_pure _
  | name text last? => exact a.nameNode_locates text h
  | tuple items place => exact (itemNodes_locates a h.2 h.1).bind fun _ => locates_pure _
  | empty bracket => cases bracket <;> exact locates_pure _
  | group bracket first inner =>
    have content : (a.node inner).Locates P := node_locates a h.2
    cases bracket with
    | paren => exact content
    | square | brace =>
      cases inner with
      | tuple items place => exact (itemNodes_locates a h.2.2 h.2.1).bind fun _ => locates_pure _
      | _ => exact content.bind fun _ => locates_pure _
  | call callee last? args paren =>
    obtain ⟨marked, located, closes⟩ := h
    unfold node
    split
    · exact (checkArguments_locates _ _ _ _ closes).bind fun _ =>
        (argumentNodes_locates a _ located).whole.bind fun _ => locates_pure _
    · exact (checkArguments_locates _ _ _ _ closes).bind fun _ =>
        (argumentNodes_locates a _ located).whole.bind fun _ => locates_pure _
    · exact locates_fail marked _
  | operation first rest =>
    refine (operandNode_locates a h.1).bind fun head => ?_
    refine (operationNodes_locates a h.2).bind (fun _ told => told.1) fun tail before told => ?_
    have applied : (a.applyTree (.ofChain head tail)).Locates P := by
      apply applyTree_locates
      rw [OpTree.inOrder_ofChain]
      exact told.2 tail rfl
    exact applied.mono fun _ _ logged => List.forall_mem_append.mpr ⟨told.1, logged⟩
termination_by structural form

theorem itemNodes_locates (a : Analyzer) {place : Place} (here : P place) {items : List Part}
    (h : Part.AllLocated P items) : (a.itemNodes place items).Locates P := by
  cases items with
  | nil => exact locates_pure _
  | cons part rest =>
    cases part with
    | missing => exact locates_fail (.of_place here) _
    | run first form =>
      obtain ⟨start, located, below⟩ := h
      exact (node_locates a located).bind fun _ =>
        (conclude_locates (.of_place start) _ _).bind fun _ =>
          (itemNodes_locates a here below).bind fun _ => locates_pure _
termination_by structural items

theorem argumentNodes_locates (a : Analyzer) (params : ParamList) {args : List Part}
    (h : Part.AllLocated P args) : (a.argumentNodes params args).Locates P := by
  cases args with
  | nil => cases params <;> exact locates_pure _
  | cons part rest =>
    cases params with
    | nil => exact locates_pure _
    | cons param params =>
      cases part with
      | missing => exact locates_pure _
      | run first form =>
        obtain ⟨start, located, below⟩ := h
        exact (node_locates a located).bind fun _ =>
          (conclude_locates (.of_place start) _ _).bind fun _ =>
            (compareArgument_locates _ start _).bind fun _ =>
              (argumentNodes_locates a params below).bind fun _ => locates_pure _
termination_by structural args

theorem operandNode_locates (a : Analyzer) {operand : Operand} (h : operand.Located P) :
    (a.operandNode operand).Locates P := by
  cases operand with
  | mk signs form => exact (node_locates a h.2).bind fun _ => a.applySigns_locates h.1 _
termination_by structural operand

theorem operationNodes_locates (a : Analyzer) {operations : List Operation}
    (h : Operation.AllLocated P operations) :
    (a.operationNodes operations).Ensures fun r new =>
      (∀ f ∈ new, Marked P f.place?) ∧ ∀ nodes, r = some nodes → ∀ x ∈ nodes, P x.2.1 := by
  cases operations with
  | nil => exact ensures_pure ⟨List.forall_mem_nil _,
      fun nodes same => Option.some.inj same ▸ List.forall_mem_nil _⟩
  | cons operation rest =>
    cases operation with
    | mk op place operand =>
      obtain ⟨here, located, below⟩ := h
      refine Ensures.bind (operandNode_locates a located) (fun _ logged => ⟨logged, nofun⟩) ?_
      intro value before logged
      refine (operationNodes_locates a below).bind ?_ ?_
      · exact fun _ told => ⟨List.forall_mem_append.mpr ⟨logged, told.1⟩, nofun⟩
      · intro nodes after told
        refine ensures_pure ⟨?_, fun _ same => Option.some.inj same ▸ ?_⟩
        · rw [List.append_nil]
          exact List.forall_mem_append.mpr ⟨logged, told.1⟩
        · exact List.forall_mem_cons.mpr ⟨here, told.2 nodes rfl⟩
termination_by structural operations

end

/-- An analysis of a run that is not empty logs at places of tokens that stand in the run. -/
theorem analyze_locates (a : Analyzer) (expected? : Option Ty) {run : List Token} (some : run ≠ [])
    (h : ∀ t ∈ run, t.Located P) : (a.analyze expected? run).Locates P := by
  have first : Marked P (firstPlace? run) := by
    cases run with
    | nil => exact absurd rfl some
    | cons t rest => exact .of_place (h t List.mem_cons_self t .self)
  exact (a.node_locates (Form.located_ofTokens some h)).bind fun _ => conclude_locates first _ _

end Analyzer

end ExprCheck
