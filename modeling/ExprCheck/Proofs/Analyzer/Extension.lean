import ExprCheck.Analyzer
import ExprCheck.Proofs.Prelude.Extension
/-! Analyses over more symbols. A name that is not found ends an analysis, so an analysis with a
result has found every name that it looked up. Main statement: an expression that is made over the
table of a prelude is made, with the same findings, over the table of every prelude that goes on
behind it. -/
namespace ExprCheck

namespace Analysis

variable {α β : Type}

/-- Where the first step has a result, the second has the same and leaves the same log. -/
def Entails (m m' : Analysis α) : Prop :=
  ∀ log x after, m log = (some x, after) → m' log = (some x, after)

theorem Entails.refl (m : Analysis α) : m.Entails m :=
  fun _ _ _ same => same

theorem entails_fail (fault : Fault) (place? : Option Place) (m' : Analysis α) :
    (fail fault place?).Entails m' := by
  intro log x after same
  cases same

theorem Entails.bind {m m' : Analysis α} {f f' : α → Analysis β} (first : m.Entails m')
    (next : ∀ x, (f x).Entails (f' x)) : (m >>= f).Entails (m' >>= f') := by
  intro log y after same
  change Analysis.bind m f log = _ at same
  change Analysis.bind m' f' log = _
  unfold Analysis.bind at same ⊢
  cases out : m log with
  | mk r mid =>
    rw [out] at same
    cases r with
    | none => cases same
    | some x =>
      rw [first log x mid out]
      exact next x mid y after same

theorem Entails.whole {m m' : Analysis α} (inner : m.Entails m') : m.whole.Entails m'.whole := by
  intro log x after same
  unfold Analysis.whole at same ⊢
  cases out : m log with
  | mk r mid =>
    rw [out] at same
    cases r with
    | none => cases same
    | some y =>
      rw [inner log y mid out]
      exact same

end Analysis

namespace Analyzer

open Analysis

variable {a : Analyzer} {lookup : Lookup}

def withSymbols (a : Analyzer) (lookup : Lookup) : Analyzer :=
  { a with lookup }

theorem applySigns_withSymbols (a : Analyzer) (lookup : Lookup) (signs : List (UnaryOp × Place))
    (value : Expr) : (a.withSymbols lookup).applySigns signs value = a.applySigns signs value := by
  induction signs with
  | nil => rfl
  | cons sign signs ih =>
    rw [applySigns, applySigns, ih]
    rfl

theorem applyTree_withSymbols (a : Analyzer) (lookup : Lookup) (tree : OpTree Expr) :
    (a.withSymbols lookup).applyTree tree = a.applyTree tree := by
  induction tree with
  | leaf value => rfl
  | node op place left right ihLeft ihRight =>
    rw [applyTree, applyTree, ihLeft, ihRight]
    rfl

theorem nameNode_entails (more : a.lookup.Within lookup) (text : String) (last? : Option Place) :
    (a.nameNode text last?).Entails ((a.withSymbols lookup).nameNode text last?) := by
  unfold nameNode
  cases found : a.lookup text with
  | none => exact entails_fail _ _ _
  | some symbol =>
    have there : (a.withSymbols lookup).lookup text = some symbol := more text symbol found
    rw [there]
    exact .refl _

mutual

-- The symbols are asked for by a name and by a call alone; every other form hands the relation on
-- from its parts.
theorem node_entails (more : a.lookup.Within lookup) (form : Form) :
    (a.node form).Entails ((a.withSymbols lookup).node form) := by
  cases form with
  | invalid at? => exact entails_fail _ _ _
  | literal value => exact .refl _
  | name text last? => exact nameNode_entails more text last?
  | tuple items place => exact (itemNodes_entails more place items).bind fun _ => .refl _
  | empty bracket => cases bracket <;> exact .refl _
  | group bracket first inner =>
    have content : (a.node inner).Entails ((a.withSymbols lookup).node inner) := node_entails more inner
    cases bracket with
    | paren => exact content
    | square | brace =>
      cases inner with
      | tuple items place => exact (itemNodes_entails more place items).bind fun _ => .refl _
      | _ => exact content.bind fun _ => .refl _
  | call callee last? args paren =>
    have arguments (params : ParamList) := argumentNodes_entails more params args
    unfold node
    cases found : a.lookup callee with
    | none => exact entails_fail _ _ _
    | some symbol =>
      have there : (a.withSymbols lookup).lookup callee = some symbol := more callee symbol found
      rw [there]
      cases symbol with
      | function | struct =>
        exact (Entails.refl _).bind fun _ => (arguments _).whole.bind fun _ => .refl _
      | var => exact entails_fail _ _ _
  | operation first rest =>
    refine (operandNode_entails more first).bind fun head =>
      (operationNodes_entails more rest).bind fun tail => ?_
    rw [applyTree_withSymbols]
    exact .refl _
termination_by structural form

theorem itemNodes_entails (more : a.lookup.Within lookup) (place : Place) (items : List Part) :
    (a.itemNodes place items).Entails ((a.withSymbols lookup).itemNodes place items) := by
  cases items with
  | nil => exact .refl _
  | cons part rest =>
    cases part with
    | missing => exact entails_fail _ _ _
    | run first form =>
      exact (node_entails more form).bind fun _ => (Entails.refl _).bind fun _ =>
        (itemNodes_entails more place rest).bind fun _ => .refl _
termination_by structural items

theorem argumentNodes_entails (more : a.lookup.Within lookup) (params : ParamList)
    (args : List Part) :
    (a.argumentNodes params args).Entails ((a.withSymbols lookup).argumentNodes params args) := by
  cases args with
  | nil => cases params <;> exact .refl _
  | cons part rest =>
    cases params with
    | nil => cases part <;> exact .refl _
    | cons param params =>
      cases part with
      | missing => exact .refl _
      | run first form =>
        exact (node_entails more form).bind fun _ => (Entails.refl _).bind fun _ =>
          (Entails.refl _).bind fun _ => (argumentNodes_entails more params rest).bind fun _ =>
            .refl _
termination_by structural args

theorem operandNode_entails (more : a.lookup.Within lookup) (operand : Operand) :
    (a.operandNode operand).Entails ((a.withSymbols lookup).operandNode operand) := by
  cases operand with
  | mk signs form =>
    refine (node_entails more form).bind fun value => ?_
    rw [applySigns_withSymbols]
    exact .refl _
termination_by structural operand

theorem operationNodes_entails (more : a.lookup.Within lookup) (operations : List Operation) :
    (a.operationNodes operations).Entails ((a.withSymbols lookup).operationNodes operations) := by
  cases operations with
  | nil => exact .refl _
  | cons operation rest =>
    cases operation with
    | mk op place operand =>
      exact (operandNode_entails more operand).bind fun _ =>
        (operationNodes_entails more rest).bind fun _ => .refl _
termination_by structural operations

end

theorem analyze_entails (more : a.lookup.Within lookup) (expected? : Option Ty)
    (run : List Token) :
    (a.analyze expected? run).Entails ((a.withSymbols lookup).analyze expected? run) :=
  (node_entails more _).bind fun _ => .refl _

/-- What is made of a run over the table of a prelude is made, with the same findings, over the
table of a longer one. -/
theorem analyze_extended {source : String} {ds more : List Declaration} {t t' : ScopeTable}
    (read : readDeclarations source = .ok (ds ++ more))
    (accepted : ScopeTable.ofDeclarations ds = .ok t)
    (accepted' : ScopeTable.ofDeclarations (ds ++ more) = .ok t') (track : Bool)
    (expected? : Option Ty) (run : List Token) (log : Log) {e : Expr} {after : Log}
    (made : (Analyzer.mk t.lookup? track).analyze expected? run log = (some e, after)) :
    (Analyzer.mk t'.lookup? track).analyze expected? run log = (some e, after) := by
  have dotless := dotless_of_readDeclarations read
  have tabled : Tabled ds t := ⟨accepted, fun d mem => dotless d (List.mem_append_left _ mem)⟩
  have within := tabled.within ⟨accepted', dotless⟩
  exact analyze_entails (a := ⟨t.lookup?, track⟩) within expected? run log e after made

/- The longer prelude has a module and a structure more, and its annotation names the first one. -/
theorem analyze_extended_module :
    let run : List Token :=
      [.leaf (.name "m") ⟨⟨0, 1⟩, 1⟩, .leaf .dot ⟨⟨1, 2⟩, 1⟩, .leaf (.name "P") ⟨⟨2, 3⟩, 1⟩,
        .group .paren [.leaf (.number "1") ⟨⟨4, 5⟩, 1⟩] ⟨⟨3, 6⟩, 1⟩]
    ∃ ds more t t' e,
      readDeclarations "module m\nstruct P(x: i32)\nmodule n\nstruct Q(p: m.P)" =
        .ok (ds ++ more) ∧
      ScopeTable.ofDeclarations ds = .ok t ∧ ScopeTable.ofDeclarations (ds ++ more) = .ok t' ∧
      (Analyzer.mk t.lookup? true).analyze none run [] = (some e, []) ∧
      (Analyzer.mk t'.lookup? true).analyze none run [] = (some e, []) := by
  intro run
  let ds : List Declaration :=
    [⟨.inModule "m", ⟨0, 8⟩⟩, ⟨.struct "P" [⟨"x", some "i32", none, ⟨18, 24⟩⟩], ⟨9, 25⟩⟩]
  let more : List Declaration :=
    [⟨.inModule "n", ⟨26, 34⟩⟩, ⟨.struct "Q" [⟨"p", some "m.P", none, ⟨44, 50⟩⟩], ⟨35, 51⟩⟩]
  have read : readDeclarations "module m\nstruct P(x: i32)\nmodule n\nstruct Q(p: m.P)" =
      .ok (ds ++ more) := by
    with_unfolding_all rfl
  let t : ScopeTable := (Prelude.empty.extend ds).2.table
  let t' : ScopeTable := (Prelude.empty.extend (ds ++ more)).2.table
  have accepted : ScopeTable.ofDeclarations ds = .ok t := rfl
  have accepted' : ScopeTable.ofDeclarations (ds ++ more) = .ok t' := rfl
  let e : Expr :=
    .mkInit true "m.P" "m.P" [⟨"x", .known (.int .i32)⟩] [.ofLiteral true (.number "1")]
  have made : (Analyzer.mk t.lookup? true).analyze none run [] = (some e, []) := by
    with_unfolding_all rfl
  exact ⟨ds, more, t, t', e, read, accepted, accepted', made,
    analyze_extended read accepted accepted' true none run [] made⟩

end Analyzer

end ExprCheck
