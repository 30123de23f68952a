import ExprCheck.Proofs.Analysis
import ExprCheck.Proofs.OpTree
import ExprCheck.Proofs.Places
import ExprCheck.Analyzer
/-! Analyses and the places of their tokens. An analysis hands places on to the log and asks nothing
about them, and of the nodes that it makes it asks only for their types. Main statements: if every
token of a run is put somewhere else and nodes are marked in another way, the analysis logs the same
there and answers what corresponds; so if only the tokens are put somewhere else, it answers the
same. -/
namespace ExprCheck

variable (f : Place → Place)

def Finding.mapPlaces (found : Finding) : Finding :=
  ⟨found.concern, found.place?.map f⟩

def Log.mapPlaces (log : Log) : Log :=
  log.map (Finding.mapPlaces f)

@[simp] theorem Log.errorCount_mapPlaces (log : Log) :
    (log.mapPlaces f).errorCount = log.errorCount := by
  unfold Log.errorCount Log.mapPlaces
  rw [List.countP_map]
  rfl

namespace Analysis

variable {α β α' β' : Type} {f}

/-- Somewhere else the step gives the result that corresponds and logs the same. -/
def Mirrors (f : Place → Place) (g : α → α') (m : Analysis α) (m' : Analysis α') : Prop :=
  ∀ log, m' (Log.mapPlaces f log) = ((m log).1.map g, (m log).2.mapPlaces f)

theorem mirrors_pure {g : α → α'} (x : α) : Mirrors f g (pure x) (pure (g x)) :=
  fun _ => rfl

theorem mirrors_fail {g : α → α'} (fault : Fault) (place? : Option Place) :
    Mirrors f g (fail fault place?) (fail fault (place?.map f)) := by
  intro log
  simp [fail, Log.mapPlaces, Finding.mapPlaces]

theorem mirrors_note (concern : Concern) (place? : Option Place) :
    Mirrors f id (note concern place?) (note concern (place?.map f)) := by
  intro log
  simp [note, Log.mapPlaces, Finding.mapPlaces]

theorem Mirrors.bind {g : α → α'} {h : β → β'} {m : Analysis α} {m' : Analysis α'}
    {k : α → Analysis β} {k' : α' → Analysis β'} (first : Mirrors f g m m')
    (next : ∀ x, Mirrors f h (k x) (k' (g x))) : Mirrors f h (m >>= k) (m' >>= k') := by
  intro log
  change Analysis.bind m' k' (log.mapPlaces f) =
    ((Analysis.bind m k log).1.map h, (Analysis.bind m k log).2.mapPlaces f)
  unfold Analysis.bind
  rw [first log]
  generalize m log = out
  obtain ⟨r, after⟩ := out
  cases r with
  | none => rfl
  | some x => exact next x after

theorem Mirrors.whole {g : α → α'} {m : Analysis α} {m' : Analysis α'} (inner : Mirrors f g m m') :
    Mirrors f g m.whole m'.whole := by
  intro log
  unfold Analysis.whole
  rw [inner log]
  generalize m log = out
  obtain ⟨r, after⟩ := out
  cases r with
  | none => rfl
  | some x =>
    simp only [Option.map_some, Log.errorCount_mapPlaces]
    split <;> rfl

end Analysis

/-- The expressions keep their types, and the nodes of one way of tracking effects become those of
another. -/
structure Expr.Retracks (track track' : Bool) (g : Expr → Expr) : Prop where
  type : ∀ e, (g e).resultType = e.resultType
  literal : ∀ l, g (.ofLiteral track l) = .ofLiteral track' l
  name : ∀ text ty, g (.mkName track text ty) = .mkName track' text ty
  collection : ∀ kind items,
    g (.mkCollection track kind items) = .mkCollection track' kind (items.map g)
  dict : g (.mkDict track) = .mkDict track'
  call : ∀ callee args ty,
    g (.mkCall track callee args ty) = .mkCall track' callee (args.map g) ty
  init : ∀ callee qualified slots values,
    g (.mkInit track callee qualified slots values) =
      .mkInit track' callee qualified slots (values.map g)
  unary : ∀ op operand ty, g (.mkUnary track op operand ty) = .mkUnary track' op (g operand) ty
  binary : ∀ op left right ty,
    g (.mkBinary track op left right ty) = .mkBinary track' op (g left) (g right) ty

theorem Expr.retracks_id (track : Bool) : Retracks track track id := by
  constructor <;> simp

namespace Analyzer

open Analysis

def retracked (a : Analyzer) (track : Bool) : Analyzer :=
  { a with track }

variable {f} {a : Analyzer} {track : Bool} {g : Expr → Expr}

theorem mirrors_node {e e' : Expr} (same : g e = e') : Mirrors f g (pure e) (pure e') :=
  same ▸ mirrors_pure e

theorem nameNode_mirrors (nodes : Expr.Retracks a.track track g) (text : String)
    (last? : Option Place) :
    Mirrors f g (a.nameNode text last?) ((a.retracked track).nameNode text (last?.map f)) := by
  have symbols : (a.retracked track).lookup text = a.lookup text := rfl
  unfold nameNode
  rw [symbols]
  cases a.lookup text with
  | none => exact mirrors_fail _ _
  | some symbol => exact mirrors_node (nodes.name _ _)

theorem conclude_mirrors (nodes : Expr.Retracks a.track track g) (first? : Option Place)
    (expected? : Option Ty) (value : Expr) :
    Mirrors f g (conclude first? expected? value)
      (conclude (first?.map f) expected? (g value)) := by
  unfold conclude
  rw [nodes.type]
  split
  · split
    · exact mirrors_pure _
    · exact mirrors_fail _ _
  · exact (mirrors_note _ _).bind fun _ => mirrors_pure _
  · exact mirrors_pure _

theorem applyUnary_mirrors (nodes : Expr.Retracks a.track track g) (op : UnaryOp) (place : Place)
    (operand : Expr) :
    Mirrors f g (a.applyUnary op place operand)
      ((a.retracked track).applyUnary op (f place) (g operand)) := by
  unfold applyUnary
  rw [nodes.type]
  split
  · split
    · exact mirrors_node (nodes.unary _ _ _)
    · exact mirrors_fail _ _
  · exact mirrors_node (nodes.unary _ _ _)

theorem applySigns_mirrors (nodes : Expr.Retracks a.track track g) (signs : List (UnaryOp × Place))
    (value : Expr) :
    Mirrors f g (a.applySigns signs value)
      ((a.retracked track).applySigns (signs.map fun s => (s.1, f s.2)) (g value)) := by
  induction signs with
  | nil => exact mirrors_pure _
  | cons sign signs ih => exact ih.bind fun _ => applyUnary_mirrors nodes _ _ _

theorem applyBinary_mirrors (nodes : Expr.Retracks a.track track g) (op : BinaryOp) (place : Place)
    (left right : Expr) :
    Mirrors f g (a.applyBinary op place left right)
      ((a.retracked track).applyBinary op (f place) (g left) (g right)) := by
  unfold applyBinary
  rw [nodes.type, nodes.type]
  split
  · split
    · exact mirrors_node (nodes.binary _ _ _ _)
    · exact mirrors_fail _ _
  · exact mirrors_node (nodes.binary _ _ _ _)

theorem applyTree_mirrors (nodes : Expr.Retracks a.track track g) (tree : OpTree Expr) :
    Mirrors f g (a.applyTree tree) ((a.retracked track).applyTree (tree.map f g)) := by
  induction tree with
  | leaf value => exact mirrors_pure _
  | node op place left right ihLeft ihRight =>
    exact ihLeft.bind fun _ => ihRight.bind fun _ => applyBinary_mirrors nodes _ _ _ _

theorem compareArgument_mirrors (nodes : Expr.Retracks a.track track g) (param : ParamSpec)
    (first : Place) (value : Expr) :
    Mirrors f id (compareArgument param first value)
      (compareArgument param (f first) (g value)) := by
  unfold compareArgument
  rw [nodes.type]
  split
  · split
    · exact mirrors_pure _
    · exact mirrors_note _ _
  · exact mirrors_pure _

theorem anyMissing_mapPartPlaces (args : List Part) :
    anyMissing (mapPartPlaces f args) = anyMissing args := by
  induction args with
  | nil => rfl
  | cons part rest ih => cases part <;> simp [mapPartPlaces, anyMissing, ih]

theorem length_mapPartPlaces (args : List Part) : (mapPartPlaces f args).length = args.length := by
  induction args with
  | nil => rfl
  | cons part rest ih => cases part <;> simp [mapPartPlaces, ih]

theorem checkArguments_mirrors (name : String) (params : ParamList) (required : Nat)
    (args : List Part) (paren : Place) :
    Mirrors f id (checkArguments name params required args paren)
      (checkArguments name params required (mapPartPlaces f args) (f paren)) := by
  unfold checkArguments checkCount
  rw [anyMissing_mapPartPlaces, length_mapPartPlaces]
  split
  · exact mirrors_fail _ _
  split
  · exact mirrors_fail _ _
  split
  · exact mirrors_fail _ _
  · exact mirrors_pure _

mutual

theorem node_mirrors (nodes : Expr.Retracks a.track track g) (form : Form) :
    Mirrors f g (a.node form) ((a.retracked track).node (form.mapPlaces f)) := by
  have collection (kind : Collection) (items : List Expr) :
      Mirrors f g (pure (.mkCollection a.track kind items))
        (pure (.mkCollection track kind (items.map g))) :=
    mirrors_node (nodes.collection kind items)
  cases form with
  | invalid at? => exact mirrors_fail _ _
  | literal value => exact mirrors_node (nodes.literal value)
  | name text last? => exact nameNode_mirrors nodes _ _
  | tuple items place => exact (itemNodes_mirrors nodes place items).bind (collection .tuple)
  | empty bracket =>
    cases bracket with
    | paren => exact collection .tuple []
    | square => exact collection .list []
    | brace => exact mirrors_node nodes.dict
  | group bracket first inner =>
    have content : Mirrors f g (a.node inner) ((a.retracked track).node (inner.mapPlaces f)) :=
      node_mirrors nodes inner
    cases bracket with
    | paren => exact content
    | square =>
      cases inner with
      | tuple items place => exact (itemNodes_mirrors nodes place items).bind (collection .list)
      | _ => exact content.bind fun value => collection .list [value]
    | brace =>
      cases inner with
      | tuple items place => exact (itemNodes_mirrors nodes place items).bind (collection .set)
      | _ => exact content.bind fun value => collection .set [value]
  | call callee last? args paren =>
    have symbols : (a.retracked track).lookup callee = a.lookup callee := rfl
    simp only [Form.mapPlaces]
    unfold node
    rw [symbols]
    split
    · exact (checkArguments_mirrors _ _ _ _ _).bind fun _ =>
        (argumentNodes_mirrors nodes _ args).whole.bind fun values =>
          mirrors_node (nodes.call callee values _)
    · exact (checkArguments_mirrors _ _ _ _ _).bind fun _ =>
        (argumentNodes_mirrors nodes _ args).whole.bind fun values =>
          mirrors_node (nodes.init callee _ _ values)
    · exact mirrors_fail _ _
  | operation first rest =>
    refine (operandNode_mirrors nodes first).bind fun head =>
      (operationNodes_mirrors nodes rest).bind fun tail => ?_
    have tree : Mirrors f g (a.applyTree (.ofChain head tail)) _ := applyTree_mirrors nodes _
    rw [OpTree.map_ofChain] at tree
    exact tree
termination_by structural form

theorem itemNodes_mirrors (nodes : Expr.Retracks a.track track g) (place : Place)
    (items : List Part) :
    Mirrors f (List.map g) (a.itemNodes place items)
      ((a.retracked track).itemNodes (f place) (mapPartPlaces f items)) := by
  cases items with
  | nil => exact mirrors_pure _
  | cons part rest =>
    cases part with
    | missing => exact mirrors_fail _ _
    | run first form =>
      exact (node_mirrors nodes form).bind fun _ => (conclude_mirrors nodes _ _ _).bind fun _ =>
        (itemNodes_mirrors nodes place rest).bind fun _ => mirrors_pure _
termination_by structural items

theorem argumentNodes_mirrors (nodes : Expr.Retracks a.track track g) (params : ParamList)
    (args : List Part) :
    Mirrors f (List.map g) (a.argumentNodes params args)
      ((a.retracked track).argumentNodes params (mapPartPlaces f args)) := by
  cases args with
  | nil => cases params <;> exact mirrors_pure _
  | cons part rest =>
    cases params with
    | nil => cases part <;> exact mirrors_pure _
    | cons param params =>
      cases part with
      | missing => exact mirrors_pure _
      | run first form =>
        exact (node_mirrors nodes form).bind fun _ => (conclude_mirrors nodes _ _ _).bind fun _ =>
          (compareArgument_mirrors nodes _ _ _).bind fun _ =>
            (argumentNodes_mirrors nodes params rest).bind fun _ => mirrors_pure _
termination_by structural args

theorem operandNode_mirrors (nodes : Expr.Retracks a.track track g) (operand : Operand) :
    Mirrors f g (a.operandNode operand)
      ((a.retracked track).operandNode (operand.mapPlaces f)) := by
  cases operand with
  | mk signs form => exact (node_mirrors nodes form).bind fun _ => applySigns_mirrors nodes _ _
termination_by structural operand

theorem operationNodes_mirrors (nodes : Expr.Retracks a.track track g)
    (operations : List Operation) :
    Mirrors f (List.map fun x => (x.1, f x.2.1, g x.2.2)) (a.operationNodes operations)
      ((a.retracked track).operationNodes (mapOperationPlaces f operations)) := by
  cases operations with
  | nil => exact mirrors_pure _
  | cons operation rest =>
    cases operation with
    | mk op place operand =>
      exact (operandNode_mirrors nodes operand).bind fun _ =>
        (operationNodes_mirrors nodes rest).bind fun _ => mirrors_pure _
termination_by structural operations

end

theorem analyze_retracked (nodes : Expr.Retracks a.track track g) (expected? : Option Ty)
    (run : List Token) :
    Mirrors f g (a.analyze expected? run)
      ((a.retracked track).analyze expected? (run.map (Token.mapPlaces f))) := by
  unfold analyze
  rw [firstPlace?_mapPlaces, Form.ofTokens_mapPlaces]
  exact (node_mirrors nodes _).bind fun _ => conclude_mirrors nodes _ _ _

/-- An analysis of tokens that are put somewhere else gives the same node and logs the same there.
-/
theorem analyze_mirrors (a : Analyzer) (expected? : Option Ty) (run : List Token) :
    Mirrors f id (a.analyze expected? run)
      (a.analyze expected? (run.map (Token.mapPlaces f))) :=
  analyze_retracked (Expr.retracks_id a.track) expected? run

end Analyzer

end ExprCheck
