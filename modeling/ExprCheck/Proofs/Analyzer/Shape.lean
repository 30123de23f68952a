import ExprCheck.Proofs.Analyzer.Assembly
import ExprCheck.Proofs.Analyzer.Builds
import ExprCheck.Proofs.Grammar
/-! What kind of expression a run gives. A tuple alone gives a tuple. Main statement: a run of
several tokens with a tuple among them is neither a name nor a call, so it gives an operation if it
gives anything. -/
namespace ExprCheck

namespace Expr

def isTuple : Expr → Bool
  | collection _ .tuple _ => true
  | _ => false

def isOperation : Expr → Bool
  | unary .. | binary .. => true
  | _ => false

end Expr

theorem Grammar.Name.leaves {run : List Token} {parts : List String} (spells : Name run parts) :
    ∀ t ∈ run, t.isComposite = false := by
  induction spells with
  | single free => exact List.forall_mem_singleton.mpr rfl
  | dotted free rest ih => exact List.forall_mem_cons.mpr ⟨rfl, List.forall_mem_cons.mpr ⟨rfl, ih⟩⟩

theorem tuple_notMem_of_dottedName? {run : List Token} {name : String}
    (spells : dottedName? run = some name) (items : List (List Token)) (place : Place) :
    .tuple items place ∉ run := by
  obtain ⟨parts, spelled, -⟩ := Grammar.dottedName?_eq_some_iff.mp spells
  intro mem
  cases spelled.leaves _ mem

theorem atomForm?_of_unnamed {run : List Token} (several : 2 ≤ run.length)
    (unnamed : dottedName? run = none)
    (noCall : ∀ head paren name, run = head ++ [paren] → paren.isParenGroup = true →
      dottedName? head ≠ some name) : Noted.atomForm? (noteTokens run) = none := by
  have noted := Grammar.tokens_noteTokens run
  apply Noted.atomForm?_eq_none
  · intro n single
    rw [single] at noted
    simp [← noted, Noted.tokens] at several
  · rwa [noted]
  · cases call : isCall true (Noted.tokens (noteTokens run)) with
    | false => rfl
    | true =>
      obtain ⟨head, paren, name, parts, isParen, named, -⟩ := (Noted.isCall_iff _).mp call
      have whole : run = Noted.tokens head ++ [paren.token] := by
        rw [← noted, parts]
        simp [Noted.tokens]
      exact absurd named (noCall _ _ name whole isParen)

theorem atomForm?_of_tuple {run : List Token} {items : List (List Token)} {place : Place}
    (mem : .tuple items place ∈ run) (several : 2 ≤ run.length) :
    Noted.atomForm? (noteTokens run) = none := by
  apply atomForm?_of_unnamed several
  · cases named : dottedName? run with
    | none => rfl
    | some name => exact absurd mem (tuple_notMem_of_dottedName? named items place)
  · intro head paren name whole isParen named
    rcases List.mem_append.mp (whole ▸ mem) with inHead | last
    · exact tuple_notMem_of_dottedName? named items place inHead
    · rw [← List.mem_singleton.mp last] at isParen
      cases isParen

theorem OpTree.Denotes.isOperation {tree : OpTree Expr} {e : Expr} (denotes : tree.Denotes e)
    (several : tree.leaves.length ≠ 1) : e.isOperation = true := by
  cases denotes with
  | leaf => exact absurd rfl several
  | node => rfl

namespace Analyzer

open Analysis

variable {a : Analyzer}

theorem isOperation_of_assemble {run : List Noted} (noAtom : Noted.atomForm? run = none) {log : Log}
    {e : Expr} (made : (a.assemble Noted.token a.synthesizer run log).1 = some e) :
    e.isOperation = true := by
  unfold assemble at made
  cases read : Chain.split Noted.token run with
  | error at? =>
    rw [read] at made
    cases made
  | ok chain =>
    rw [read] at made
    obtain ⟨-, spells⟩ := Chain.split_eq_ok_iff.mp read
    obtain ⟨head, madeHead, rest⟩ := bind_eq_some_iff.mp made
    obtain ⟨tail, madeTail, applied⟩ := bind_eq_some_iff.mp rest
    have denotes := (applyTree_denotes _).result applied
    obtain ⟨⟨signs, operand⟩, operations⟩ := chain
    cases makes_of_pieceNodes madeTail with
    | cons =>
      apply denotes.isOperation
      simp [OpTree.leaves_ofChain]
    | nil =>
      cases denotes
      obtain ⟨value, before, madeValue, signed⟩ := makes_of_pieceNode madeHead
      cases signs with
      | cons sign signs =>
        cases signed
        rfl
      | nil =>
        have whole : operand = run := by simpa [Chain.elements, Piece.elements] using spells
        rw [operand_synthesizer, whole, noAtom] at madeValue
        cases madeValue

/-- A whole expression is the node of its form. -/
theorem node_of_analyze {expected? : Option Ty} {run : List Token} {log : Log} {e : Expr}
    (made : (a.analyze expected? run log).1 = some e) :
    (a.node (.ofTokens run) log).1 = some e := by
  obtain ⟨value, node, settled⟩ := bind_eq_some_iff.mp made
  obtain ⟨rfl, -⟩ := (conclude_yields _ _ value).result settled
  exact node

theorem isTuple_of_analyze {expected? : Option Ty} {items : List (List Token)} {place : Place}
    {log : Log} {e : Expr} (made : (a.analyze expected? [.tuple items place] log).1 = some e) :
    e.isTuple = true := by
  obtain ⟨values, -, same⟩ := bind_eq_some_iff.mp (node_of_analyze made)
  cases same
  rfl

theorem isOperation_of_analyze {expected? : Option Ty} {run : List Token}
    {items : List (List Token)} {place : Place} (mem : .tuple items place ∈ run)
    (several : 2 ≤ run.length) {log : Log} {e : Expr}
    (made : (a.analyze expected? run log).1 = some e) : e.isOperation = true := by
  have noAtom := atomForm?_of_tuple mem several
  have node := node_of_analyze made
  unfold Form.ofTokens Noted.runForm at node
  rw [noAtom] at node
  exact isOperation_of_assemble noAtom (a.node_operationForm _ ▸ node)

end Analyzer

end ExprCheck
