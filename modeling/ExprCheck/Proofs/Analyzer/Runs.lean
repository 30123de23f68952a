import ExprCheck.Proofs.Analyzer.Arity
import ExprCheck.Proofs.Analyzer.Assembly
import ExprCheck.Proofs.Places
import ExprCheck.Proofs.Verdict.Judging
/-! Analyses of runs, told by the runs. The form of a run is found from the forms of its tokens.
Main statements: which form a run has is told by its tokens, the items and arguments in a token are
those of its form, and an operation is assembled from runs of tokens. -/
namespace ExprCheck

theorem noteTokens_eq_map (run : List Token) : noteTokens run = run.map fun t => ⟨t, t.form⟩ := by
  induction run with
  | nil => rfl
  | cons t rest ih => exact congrArg (List.cons _) ih

theorem itemParts_eq_map (items : List (List Token)) :
    itemParts items = (Grammar.trimmed items).map Part.ofRun := by
  induction items with
  | nil => rfl
  | cons item rest ih =>
    cases rest with
    | nil => cases item <;> rfl
    | cons next rest =>
      rw [Grammar.trimmed_cons, List.map_cons, ← ih]
      cases item <;> rfl

def Token.arguments : Token → List (List Token)
  | .group _ [] _ => []
  | .group _ [.tuple items _] _ => Grammar.trimmed items
  | .group _ run _ => [run]
  | _ => []

theorem Form.args_ofLeaf (l : Leaf) (place : Place) : (Form.ofLeaf l place).args = [] := by
  cases l with
  | name text =>
    unfold Form.ofLeaf
    dsimp only
    split
    · rfl
    · split <;> rfl
  | _ => rfl

theorem Form.args_bracket (bracket bracket' : Bracket) (first : Place) (inner : Form) :
    (Form.group bracket first inner).args = (Form.group bracket' first inner).args := by
  cases inner <;> rfl

theorem Token.form_args (t : Token) : t.form.args = t.arguments.map Part.ofRun := by
  cases t with
  | leaf l place => exact Form.args_ofLeaf l place
  | tuple items place => rfl
  | group bracket inner place =>
    unfold Token.arguments
    split
    · rename_i same
      cases same
      rfl
    · rename_i items _ _ same
      cases same
      exact itemParts_eq_map items
    · rename_i some other same
      cases same
      obtain ⟨t, rest, rfl⟩ := List.exists_cons_of_ne_nil some
      obtain ⟨first, starts, read⟩ := Form.args_group some other place
      cases starts
      exact (Form.args_bracket ..).trans read
    · rename_i other
      exact absurd rfl (other _ _ _)

theorem Analyzer.anyMissing_map (runs : List (List Token)) :
    anyMissing (runs.map Part.ofRun) = runs.any List.isEmpty := by
  induction runs with
  | nil => rfl
  | cons run rest ih =>
    cases run with
    | nil => rfl
    | cons t run => exact ih

namespace Form

theorem ofTokens_of_dottedName? {run : List Token} {name : String} (several : ∀ t, run ≠ [t])
    (named : dottedName? run = some name) : ofTokens run = .name name (lastPlace? run) := by
  have noted := Grammar.tokens_noteTokens run
  have atom : Noted.atomForm? (noteTokens run) = some (.name name (lastPlace? run)) := by
    have named : dottedName? (Noted.tokens (noteTokens run)) = some name := by rwa [noted]
    have found := Noted.atomForm?_of_dottedName? (fun n single => several n.token ?_) named
    · rwa [noted] at found
    · rw [← noted, single]
      rfl
  rw [ofTokens, Noted.runForm, atom]
  rfl

theorem ofTokens_of_isCall {run : List Token} (call : isCall true run = true) :
    ofTokens run = callOfTokens run := by
  obtain ⟨head, name, inner, place, rfl, named⟩ := exists_of_isCall call
  exact (callOfTokens_call named inner place).symm

theorem ofTokens_of_unnamed {run : List Token} (several : ∀ t, run ≠ [t])
    (unnamed : dottedName? run = none) (noCall : isCall true run = false) :
    ofTokens run = Noted.operationForm (noteTokens run) := by
  have noted := Grammar.tokens_noteTokens run
  have atom : Noted.atomForm? (noteTokens run) = none := by
    apply Noted.atomForm?_eq_none
    · intro n single
      apply several n.token
      rw [← noted, single]
      rfl
    · rwa [noted]
    · rwa [noted]
  rw [ofTokens, Noted.runForm, atom]
  rfl

theorem callOfTokens_eq (run : List Token) :
    callOfTokens run =
      match splitAtFirst Token.isParenGroup run with
      | none => .invalid (lastPlace? run)
      | some (_, _, next :: _) => .invalid next.place
      | some (head, paren, []) =>
          match dottedName? head with
          | some text => .call text (lastPlace? head) paren.form.args paren.place
          | none => .invalid ((firstPlace? head).getD paren.place) := by
  have cut := splitAtFirst_map (fun t : Token => (⟨t, t.form⟩ : Noted))
    (fun n => n.token.isParenGroup) run
  rw [← noteTokens_eq_map] at cut
  have tokens (part : List Token) : Noted.tokens (part.map fun t => ⟨t, t.form⟩) = part := by
    rw [← noteTokens_eq_map, Grammar.tokens_noteTokens]
  rw [callOfTokens, Noted.callForm, cut, Grammar.tokens_noteTokens]
  cases splitAtFirst Token.isParenGroup run with
  | none => rfl
  | some parts =>
    obtain ⟨head, paren, tail⟩ := parts
    cases tail with
    | nil =>
      cases named : dottedName? head <;>
        simp only [Option.map_some, List.map_nil, tokens, named]
    | cons next tail => rfl

end Form

namespace Analyzer

def reader (a : Analyzer) : Synthesizer Token where
  atom run := a.node (.ofTokens run)
  isCall := isCall true
  call := a.analyzeCall

variable {a : Analyzer}

theorem operand_noted (run : List Token) :
    a.synthesizer.operand Noted.token (run.map fun t => ⟨t, t.form⟩) = a.reader.operand id run := by
  have tokens : Noted.tokens (run.map fun t => ⟨t, t.form⟩) = run := by
    rw [← noteTokens_eq_map, Grammar.tokens_noteTokens]
  unfold Synthesizer.operand synthesizer reader analyzeCall Form.ofTokens Form.callOfTokens
  simp only [List.length_map, noteTokens_eq_map, List.map_id]
  rw [← Noted.tokens, tokens]

theorem pieceNode_noted (piece : Piece Token) :
    a.pieceNode Noted.token a.synthesizer (piece.map fun t => ⟨t, t.form⟩) =
      a.pieceNode id a.reader piece := by
  unfold pieceNode Piece.map
  rw [operand_noted, List.map_map]
  rfl

theorem pieceNodes_noted (rest : List ((BinaryOp × Token) × Piece Token)) :
    a.pieceNodes Noted.token a.synthesizer
        (rest.map fun x => ((x.1.1, ⟨x.1.2, x.1.2.form⟩), x.2.map fun t => ⟨t, t.form⟩)) =
      a.pieceNodes id a.reader rest := by
  induction rest with
  | nil => rfl
  | cons x rest ih =>
    rw [List.map_cons, pieceNodes, pieceNode_noted, ih]
    rfl

/-- An operation is assembled from the runs of tokens between its operators. -/
theorem node_operationForm_noteTokens (a : Analyzer) (run : List Token) :
    a.node (Noted.operationForm (noteTokens run)) = a.assemble id a.reader run := by
  have cut : Chain.split Noted.token (run.map fun t => (⟨t, t.form⟩ : Noted)) =
      Chain.mapResult _ (Chain.split id run) := Chain.split_map (fun _ => rfl) (fun _ => rfl) run
  rw [node_operationForm, noteTokens_eq_map]
  unfold assemble
  rw [cut]
  cases Chain.split id run with
  | error t? =>
    cases t? <;> rfl
  | ok c => simp only [Chain.mapResult, Chain.map, pieceNode_noted, pieceNodes_noted]

end Analyzer

end ExprCheck
