import ExprCheck.Proofs.Chain
import ExprCheck.Proofs.Form
/-! The leaves of tokens. A form says nothing that its tokens do not say: each of its literals is a
leaf of the run at some depth. -/
namespace ExprCheck

mutual

/-- The tokens without content that a token holds, at any depth and in order. -/
def Token.leaves : Token → List Leaf
  | .leaf l _ => [l]
  | .tuple items _ => itemLeaves items
  | .group _ inner _ => runLeaves inner
termination_by structural t => t

def runLeaves : List Token → List Leaf
  | [] => []
  | t :: rest => t.leaves ++ runLeaves rest
termination_by structural run => run

def itemLeaves : List (List Token) → List Leaf
  | [] => []
  | item :: rest => runLeaves item ++ itemLeaves rest
termination_by structural items => items

end

theorem mem_runLeaves {l : Leaf} {t : Token} {run : List Token} (mem : t ∈ run)
    (inside : l ∈ t.leaves) : l ∈ runLeaves run := by
  induction run with
  | nil => cases mem
  | cons x rest ih =>
    unfold runLeaves
    rcases List.mem_cons.mp mem with rfl | mem
    · exact List.mem_append_left _ inside
    · exact List.mem_append_right _ (ih mem)

theorem mem_itemLeaves {l : Leaf} {items : List (List Token)} {item : List Token}
    (mem : item ∈ items) (inside : l ∈ runLeaves item) : l ∈ itemLeaves items := by
  induction items with
  | nil => cases mem
  | cons x rest ih =>
    unfold itemLeaves
    rcases List.mem_cons.mp mem with rfl | mem
    · exact List.mem_append_left _ inside
    · exact List.mem_append_right _ (ih mem)

def Literal.ofLeaf? : Leaf → Option Literal
  | .str raw => some (.str raw)
  | .number raw => some (.number raw)
  | .name text => Literal.ofName? text
  | .op _ | .dot | .comment _ | .newline | .endMarker => none

/-- The literals among the leaves of a run. -/
def runLiterals (run : List Token) : List Literal :=
  (runLeaves run).filterMap Literal.ofLeaf?

theorem Form.literals_ofLeaf (l : Leaf) (place : Place) :
    (Form.ofLeaf l place).literals ⊆ [l].filterMap Literal.ofLeaf? := by
  cases l with
  | name text =>
    unfold Form.ofLeaf
    dsimp only
    split
    · rename_i value literal
      simp [Form.literals, Literal.ofLeaf?, literal]
    · split
      · exact List.nil_subset _
      · exact List.nil_subset _
  | str raw => simp [Form.ofLeaf, Form.literals, Literal.ofLeaf?]
  | number raw => simp [Form.ofLeaf, Form.literals, Literal.ofLeaf?]
  | _ => simp [Form.ofLeaf, Form.literals]

theorem Form.literals_args (form : Form) : Part.literals form.args ⊆ form.literals := by
  unfold Form.args
  split
  · exact fun _ h => h
  · simp [Part.literals, Form.literals]
  · simp [Part.literals]

namespace Noted

def literals (run : List Noted) : List Literal :=
  run.flatMap fun n => n.form.literals

theorem literals_subset {run whole : List Noted} (h : run ⊆ whole) :
    literals run ⊆ literals whole := by
  intro l hl
  obtain ⟨n, hn, inside⟩ := List.mem_flatMap.mp hl
  exact List.mem_flatMap.mpr ⟨n, h hn, inside⟩

theorem literals_callForm (run : List Noted) : (callForm run).literals ⊆ literals run := by
  unfold callForm
  split
  · simp [Form.literals]
  · simp [Form.literals]
  · rename_i head paren split
    split
    · obtain ⟨rfl, -, -⟩ := of_splitAtFirst_eq_some split
      intro l hl
      exact List.mem_flatMap.mpr ⟨paren, by simp, paren.form.literals_args hl⟩
    · simp [Form.literals]

theorem literals_atomForm? {run : List Noted} {form : Form} (found : atomForm? run = some form) :
    form.literals ⊆ literals run := by
  unfold atomForm? at found
  split at found
  · cases found
    simp [literals]
  · split at found
    · cases found
      simp [Form.literals]
    · split at found
      · cases found
        exact literals_callForm run
      · cases found

theorem literals_operand (piece : Piece Noted) :
    (operand piece).literals ⊆ literals piece.run := by
  unfold operand Operand.literals
  cases found : atomForm? piece.run with
  | none => simp [Form.literals]
  | some form => exact literals_atomForm? found

theorem literals_operations {rest : List ((BinaryOp × Noted) × Piece Noted)} :
    Operation.literals (rest.map fun ((op, n), piece) => .mk op n.token.place (operand piece)) ⊆
      literals (Chain.tailElements rest) := by
  induction rest with
  | nil => simp [Operation.literals]
  | cons x rest ih =>
    rw [List.map_cons, Operation.literals, Chain.tailElements_cons]
    apply List.append_subset.mpr
    constructor
    · refine List.Subset.trans (literals_operand x.2) (literals_subset fun n hn => ?_)
      simp [Piece.elements, hn]
    · exact List.Subset.trans ih (literals_subset fun n hn => by simp [hn])

theorem literals_runForm (run : List Noted) : (runForm run).literals ⊆ literals run := by
  unfold runForm
  cases found : atomForm? run with
  | some form => exact literals_atomForm? found
  | none =>
    unfold Option.getD operationForm
    simp only
    split
    · simp [Form.literals]
    · rename_i c read
      obtain ⟨-, rfl⟩ := Chain.split_eq_ok_iff.mp read
      apply List.append_subset.mpr
      constructor
      · refine List.Subset.trans (literals_operand c.first) (literals_subset fun n hn => ?_)
        simp [Chain.elements, Piece.elements, hn]
      · exact List.Subset.trans literals_operations (literals_subset fun n hn => by
          simp [Chain.elements, hn])

end Noted

theorem literals_cons {t : Token} {rest : List Token}
    (here : t.form.literals ⊆ t.leaves.filterMap Literal.ofLeaf?)
    (below : Noted.literals (noteTokens rest) ⊆ runLiterals rest) :
    Noted.literals (noteTokens (t :: rest)) ⊆ runLiterals (t :: rest) := by
  unfold runLiterals runLeaves
  rw [List.filterMap_append]
  exact List.append_subset.mpr
    ⟨List.subset_append_of_subset_left _ here, List.subset_append_of_subset_right _ below⟩

mutual

theorem Token.literals_form (t : Token) :
    t.form.literals ⊆ t.leaves.filterMap Literal.ofLeaf? := by
  cases t with
  | leaf l place => exact Form.literals_ofLeaf l place
  | tuple items place => exact literals_itemParts items
  | group bracket inner place =>
    cases inner with
    | nil => simp [Token.form, Form.literals]
    | cons t rest =>
      have whole := literals_cons (Token.literals_form t) (literals_noteTokens rest)
      exact List.Subset.trans (Noted.literals_runForm (noteTokens (t :: rest))) whole
termination_by structural t

theorem literals_noteTokens (run : List Token) :
    Noted.literals (noteTokens run) ⊆ runLiterals run := by
  cases run with
  | nil => simp [noteTokens, Noted.literals]
  | cons t rest => exact literals_cons (Token.literals_form t) (literals_noteTokens rest)
termination_by structural run

theorem literals_itemParts (items : List (List Token)) :
    Part.literals (itemParts items) ⊆ (itemLeaves items).filterMap Literal.ofLeaf? := by
  cases items with
  | nil => simp [itemParts, Part.literals]
  | cons item rest =>
    have below := literals_itemParts rest
    rw [itemLeaves, List.filterMap_append]
    cases item with
    | nil =>
      apply List.subset_append_of_subset_right
      cases rest with
      | nil => simp [itemParts, Part.literals]
      | cons next rest => exact below
    | cons t run =>
      have whole := literals_cons (Token.literals_form t) (literals_noteTokens run)
      have here := List.Subset.trans (Noted.literals_runForm (noteTokens (t :: run))) whole
      exact List.append_subset.mpr ⟨List.subset_append_of_subset_left _ here,
        List.subset_append_of_subset_right _ below⟩
termination_by structural items

end

/-- The literals of a form are leaves of its tokens. -/
theorem Form.literals_ofTokens (run : List Token) :
    (Form.ofTokens run).literals ⊆ runLiterals run :=
  List.Subset.trans (Noted.literals_runForm _) (literals_noteTokens run)

end ExprCheck
