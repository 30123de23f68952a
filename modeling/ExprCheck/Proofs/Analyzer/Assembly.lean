import Mathlib.Data.List.Forall2
import ExprCheck.Analyzer
import ExprCheck.Proofs.Analysis
import ExprCheck.Proofs.Atom
import ExprCheck.Proofs.Chain
import ExprCheck.Proofs.Climb
/-! Assembling operations from operands. An operation needs no more of its operands than that
something makes an expression of each. Main statement: whatever makes the operands, an expression
that is assembled from a run is that of a tree which reads as the run and is grouped by precedence.
An analysis of an operation is such an assembly. -/
namespace ExprCheck

/-- The value under unary operators, the last of them next to it. -/
inductive Expr.Signed (value : Expr) : List UnaryOp → Expr → Prop
  | plain : Signed value [] value
  | sign {op : UnaryOp} {signs : List UnaryOp} {operand : Expr} (mark : Mark)
      (inner : Signed value signs operand) : Signed value (op :: signs) (.unary mark op operand)

/-- The expression has the nodes of the tree, and the leaves of the tree as its operands. -/
inductive OpTree.Denotes : OpTree Expr → Expr → Prop
  | leaf (value : Expr) : Denotes (.leaf value) value
  | node {op : BinaryOp} {place : Place} {left right : OpTree Expr} {l r : Expr} (mark : Mark)
      (first : Denotes left l) (second : Denotes right r) :
      Denotes (.node op place left right) (.binary mark op l r)

/-- What makes the operands of a run, apart from the calls among them; what counts as a call is left
open too. -/
structure Synthesizer (τ : Type) where
  atom : List τ → Analysis Expr
  isCall : List τ → Bool
  call : List τ → Analysis Expr

namespace Synthesizer

variable {τ : Type}

def operand (s : Synthesizer τ) (token : τ → Token) (run : List τ) : Analysis Expr :=
  if run.length = 1 ∨ (dottedName? (run.map token)).isSome then s.atom run
  else if s.isCall run then s.call run
  else .fail .invalidForm (firstPlace? (run.map token))

/-- The expression is an operand that was made of the piece, under the signs of the piece. -/
def Makes (s : Synthesizer τ) (token : τ → Token) (piece : Piece τ) (e : Expr) : Prop :=
  ∃ value log, (s.operand token piece.run log).1 = some value ∧
    value.Signed (piece.signs.map Prod.fst) e

end Synthesizer

namespace Analyzer

open Analysis

variable {τ : Type} (a : Analyzer) (token : τ → Token) (s : Synthesizer τ)

def pieceNode (piece : Piece τ) : Analysis Expr := do
  a.applySigns (piece.signs.map fun (op, t) => (op, (token t).place))
    (← s.operand token piece.run)

def pieceNodes :
    List ((BinaryOp × τ) × Piece τ) → Analysis (List (BinaryOp × Place × Expr))
  | [] => pure []
  | ((op, t), piece) :: rest => do
      let value ← a.pieceNode token s piece
      return (op, (token t).place, value) :: (← pieceNodes rest)

/-- Splits a run at its operators, makes the operands in order, and applies the operators. -/
def assemble (run : List τ) : Analysis Expr :=
  match Chain.split token run with
  | .error at? => .fail .invalidForm (at?.map fun t => (token t).place)
  | .ok chain => do
      let head ← a.pieceNode token s chain.first
      let tail ← a.pieceNodes token s chain.rest
      a.applyTree (.ofChain head tail)

/-- The expression is that of a tree of the whole run: the operands and operators of the run stand
in it in order, and it is grouped by precedence. It is the tree that precedence climbing finds,
which leaves no operand and no operator over. -/
def Assembled (run : List τ) (e : Expr) : Prop :=
  ∃ (chain : Chain τ) (tree : OpTree Expr),
    chain.Proper token ∧ chain.elements = run ∧
    s.Makes token chain.first tree.inOrder.1 ∧
    List.Forall₂ (fun source node =>
        node.1 = source.1.1 ∧ node.2.1 = (token source.1.2).place ∧ s.Makes token source.2 node.2.2)
      chain.rest tree.inOrder.2 ∧
    tree.Grouped ∧ (OpTree.climb 0 (.leaf tree.inOrder.1) tree.inOrder.2).1 = (tree, []) ∧
    tree.Denotes e

variable {a token s}

theorem applyUnary_unary (op : UnaryOp) (place : Place) (operand : Expr) :
    (a.applyUnary op place operand).Yields fun e _ => ∃ mark, e = .unary mark op operand := by
  unfold applyUnary
  split
  · split
    · exact yields_pure ⟨_, rfl⟩
    · exact yields_fail
  · exact yields_pure ⟨_, rfl⟩

theorem applyBinary_binary (op : BinaryOp) (place : Place) (left right : Expr) :
    (a.applyBinary op place left right).Yields fun e _ => ∃ mark, e = .binary mark op left right := by
  unfold applyBinary
  split
  · split
    · exact yields_pure ⟨_, rfl⟩
    · exact yields_fail
  · exact yields_pure ⟨_, rfl⟩

theorem applySigns_signed (signs : List (UnaryOp × Place)) (value : Expr) :
    (a.applySigns signs value).Yields fun e _ => value.Signed (signs.map Prod.fst) e := by
  induction signs with
  | nil => exact yields_pure .plain
  | cons sign signs ih =>
    refine ih.bind fun operand _ inner => ?_
    refine (applyUnary_unary sign.1 sign.2 operand).mono fun _ _ applied e same => ?_
    obtain ⟨mark, rfl⟩ := applied e same
    exact .sign mark inner

theorem applyTree_denotes (tree : OpTree Expr) :
    (a.applyTree tree).Yields fun e _ => tree.Denotes e := by
  induction tree with
  | leaf value => exact yields_pure (.leaf value)
  | node op place left right ihLeft ihRight =>
    refine ihLeft.bind fun l _ first => ihRight.bind fun r _ second => ?_
    refine (applyBinary_binary op place l r).mono fun _ _ applied e same => ?_
    obtain ⟨mark, rfl⟩ := applied e same
    exact .node mark first second

theorem makes_of_pieceNode {piece : Piece τ} {e : Expr} {log : Log}
    (made : (a.pieceNode token s piece log).1 = some e) : s.Makes token piece e := by
  obtain ⟨value, madeValue, signed⟩ := bind_eq_some_iff.mp made
  refine ⟨value, log, madeValue, ?_⟩
  have wrapped := (applySigns_signed _ value).result signed
  rwa [List.map_map] at wrapped

theorem makes_of_pieceNodes {rest : List ((BinaryOp × τ) × Piece τ)}
    {nodes : List (BinaryOp × Place × Expr)} {log : Log}
    (made : (a.pieceNodes token s rest log).1 = some nodes) :
    List.Forall₂ (fun source node =>
        node.1 = source.1.1 ∧ node.2.1 = (token source.1.2).place ∧ s.Makes token source.2 node.2.2)
      rest nodes := by
  induction rest generalizing nodes log with
  | nil =>
    cases made
    exact .nil
  | cons source rest ih =>
    obtain ⟨value, madeValue, more⟩ := bind_eq_some_iff.mp made
    obtain ⟨below, madeBelow, whole⟩ := bind_eq_some_iff.mp more
    cases whole
    exact .cons ⟨rfl, rfl, makes_of_pieceNode madeValue⟩ (ih madeBelow)

/-- An analyzer makes the operands of a run of tokens whose forms are noted. -/
def synthesizer (a : Analyzer) : Synthesizer Noted where
  atom run := a.node (Noted.runForm run)
  isCall run := isCall true (Noted.tokens run)
  call run := a.node (Noted.callForm run)

theorem operand_synthesizer (run : List Noted) :
    a.synthesizer.operand Noted.token run =
      a.node ((Noted.atomForm? run).getD (.invalid (firstPlace? (Noted.tokens run)))) := by
  change (if run.length = 1 ∨ (dottedName? (Noted.tokens run)).isSome then _ else _) = _
  by_cases single : run.length = 1
  · obtain ⟨n, rfl⟩ := List.length_eq_one_iff.mp single
    rfl
  · have several : ∀ n, run ≠ [n] := fun n same => single (same ▸ rfl)
    cases named : dottedName? (Noted.tokens run) with
    | some name =>
      rw [if_pos (.inr rfl)]
      simp [synthesizer, Noted.runForm, Noted.atomForm?_of_dottedName? several named]
    | none =>
      rw [if_neg (by simp [single])]
      change (if isCall true (Noted.tokens run) then a.node (Noted.callForm run) else _) = _
      cases call : isCall true (Noted.tokens run) with
      | true =>
        have found : Noted.atomForm? run = some (Noted.callForm run) := by
          unfold Noted.atomForm?
          split
          · exact absurd rfl (several _)
          · simp [named, call]
        rw [found]
        rfl
      | false =>
        rw [Noted.atomForm?_eq_none several named call]
        rfl

theorem operandNode_operand (piece : Piece Noted) :
    a.operandNode (Noted.operand piece) = a.pieceNode Noted.token a.synthesizer piece := by
  unfold pieceNode
  rw [operand_synthesizer]
  rfl

theorem operationNodes_rest (rest : List ((BinaryOp × Noted) × Piece Noted)) :
    a.operationNodes
        (rest.map fun ((op, n), piece) => .mk op n.token.place (Noted.operand piece)) =
      a.pieceNodes Noted.token a.synthesizer rest := by
  induction rest with
  | nil => rfl
  | cons source rest ih =>
    rw [List.map_cons, operationNodes, pieceNodes, operandNode_operand, ih]

theorem node_operationForm (a : Analyzer) (run : List Noted) :
    a.node (Noted.operationForm run) = a.assemble Noted.token a.synthesizer run := by
  unfold Noted.operationForm assemble
  cases Chain.split Noted.token run with
  | error at? => rfl
  | ok chain =>
    simp only [node, operandNode_operand, operationNodes_rest]

/-- Whatever makes the operands, an expression that is assembled from a run is that of a tree which
holds all operands and operators of the run in order, each operand under its own signs, and which is
grouped by precedence. The analysis of an operation is such an assembly. -/
theorem assembled_of_assemble (a : Analyzer) :
    (∀ {τ : Type} (token : τ → Token) (s : Synthesizer τ) (run : List τ) (log : Log) (e : Expr),
      (a.assemble token s run log).1 = some e → Assembled token s run e) ∧
    ∀ run, a.node (Noted.operationForm run) = a.assemble Noted.token a.synthesizer run := by
  refine ⟨fun token s run log e made => ?_, a.node_operationForm⟩
  unfold assemble at made
  cases read : Chain.split token run with
  | error at? =>
    rw [read] at made
    cases made
  | ok chain =>
    rw [read] at made
    obtain ⟨proper, spells⟩ := Chain.split_eq_ok_iff.mp read
    obtain ⟨head, madeHead, rest⟩ := bind_eq_some_iff.mp made
    obtain ⟨tail, madeTail, applied⟩ := bind_eq_some_iff.mp rest
    refine ⟨chain, .ofChain head tail, proper, spells, ?_, ?_, OpTree.grouped_ofChain head tail, ?_,
      (applyTree_denotes _).result applied⟩
    · rw [OpTree.inOrder_ofChain]
      exact makes_of_pieceNode madeHead
    · rw [OpTree.inOrder_ofChain]
      exact makes_of_pieceNodes madeTail
    · rw [OpTree.inOrder_ofChain]
      exact OpTree.climb_eq_ofChain head tail

/-- The tokens of `- 2 ** 3 ** 2 - 1`, all at one place. -/
def powers : List Token :=
  [.op "-", .number "2", .op "**", .number "3", .op "**", .number "2", .op "-", .number "1"].map
    fun l => .leaf l ⟨.point 0, 1⟩

theorem assembled_powers :
    ∃ e, ((⟨fun _ => none, false⟩ : Analyzer).node (Noted.operationForm (noteTokens powers)) []).1
        = some e ∧
      Assembled Noted.token (⟨fun _ => none, false⟩ : Analyzer).synthesizer (noteTokens powers) e := by
  have assembled := assembled_of_assemble ⟨fun _ => none, false⟩
  have succeeds : ((⟨fun _ => none, false⟩ : Analyzer).node
      (Noted.operationForm (noteTokens powers)) []).1.isSome = true := by
    decide +kernel
  obtain ⟨e, made⟩ := Option.isSome_iff_exists.mp succeeds
  exact ⟨e, made, assembled.1 _ _ _ [] e (assembled.2 _ ▸ made)⟩

end Analyzer

end ExprCheck
