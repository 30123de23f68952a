import ExprCheck.Proofs.Atom
/-! Places are carried along and never looked at. How a run of tokens is read depends on its leaves
and brackets only. If every token is put somewhere else, the forms are the same, with their places
put there too. -/
namespace ExprCheck

variable (f : Place → Place)

/-! ## Tokens -/

mutual

def Token.mapPlaces : Token → Token
  | .leaf l place => .leaf l (f place)
  | .tuple items place => .tuple (mapItemPlaces items) (f place)
  | .group bracket inner place => .group bracket (mapRunPlaces inner) (f place)
termination_by structural t => t

def mapRunPlaces : List Token → List Token
  | [] => []
  | t :: rest => t.mapPlaces :: mapRunPlaces rest
termination_by structural run => run

def mapItemPlaces : List (List Token) → List (List Token)
  | [] => []
  | item :: rest => mapRunPlaces item :: mapItemPlaces rest
termination_by structural items => items

end

theorem mapRunPlaces_eq_map (run : List Token) :
    mapRunPlaces f run = run.map (Token.mapPlaces f) := by
  induction run with
  | nil => rfl
  | cons t rest ih => rw [mapRunPlaces, ih, List.map_cons]

theorem mapItemPlaces_eq_map (items : List (List Token)) :
    mapItemPlaces f items = items.map (List.map (Token.mapPlaces f)) := by
  induction items with
  | nil => rfl
  | cons item rest ih => rw [mapItemPlaces, ih, mapRunPlaces_eq_map, List.map_cons]

namespace Token

@[simp] theorem place_mapPlaces (t : Token) : (t.mapPlaces f).place = f t.place := by
  cases t <;> rfl

@[simp] theorem unaryOp?_mapPlaces (t : Token) : (t.mapPlaces f).unaryOp? = t.unaryOp? := by
  cases t <;> rfl

@[simp] theorem binaryOp?_mapPlaces (t : Token) : (t.mapPlaces f).binaryOp? = t.binaryOp? := by
  cases t <;> rfl

@[simp] theorem isParenGroup_mapPlaces (t : Token) :
    (t.mapPlaces f).isParenGroup = t.isParenGroup := by
  cases t with
  | group bracket inner place => cases bracket <;> rfl
  | _ => rfl

@[simp] theorem endsLine_mapPlaces (t : Token) : (t.mapPlaces f).endsLine = t.endsLine := by
  cases t with
  | leaf l place => cases l <;> rfl
  | _ => rfl

end Token

@[simp] theorem firstPlace?_mapPlaces (run : List Token) :
    firstPlace? (run.map (Token.mapPlaces f)) = (firstPlace? run).map f := by
  cases run <;> simp [firstPlace?]

@[simp] theorem lastPlace?_mapPlaces (run : List Token) :
    lastPlace? (run.map (Token.mapPlaces f)) = (lastPlace? run).map f := by
  simp only [lastPlace?, List.getLast?_map, Option.map_map]
  congr 1
  funext t
  exact t.place_mapPlaces f

@[simp] theorem nameParts?_mapPlaces (run : List Token) :
    nameParts? (run.map (Token.mapPlaces f)) = nameParts? run := by
  match run with
  | [] => rfl
  | [t] =>
    cases t with
    | leaf l place => cases l <;> rfl
    | _ => rfl
  | t :: u :: rest =>
    have below := nameParts?_mapPlaces rest
    cases t with
    | leaf l place =>
      cases l with
      | name text =>
        cases u with
        | leaf l' place' =>
          cases l' with
          | dot => simp only [List.map_cons, Token.mapPlaces, nameParts?, below]
          | _ => rfl
        | _ => rfl
      | _ => rfl
    | _ => rfl

@[simp] theorem dottedName?_mapPlaces (run : List Token) :
    dottedName? (run.map (Token.mapPlaces f)) = dottedName? run := by
  simp [dottedName?]

@[simp] theorem isCall_mapPlaces (strict : Bool) (run : List Token) :
    isCall strict (run.map (Token.mapPlaces f)) = isCall strict run := by
  simp only [isCall, splitAtFirst_map, Token.isParenGroup_mapPlaces]
  cases splitAtFirst Token.isParenGroup run <;> simp

/-! ## Chains -/

def Piece.map {τ σ : Type} (g : τ → σ) (p : Piece τ) : Piece σ :=
  ⟨p.signs.map fun s => (s.1, g s.2), p.run.map g⟩

namespace Chain

def map {τ σ : Type} (g : τ → σ) (c : Chain τ) : Chain σ :=
  ⟨c.first.map g, c.rest.map fun x => ((x.1.1, g x.1.2), x.2.map g)⟩

def mapResult {τ σ : Type} (g : τ → σ) : Except (Option τ) (Chain τ) → Except (Option σ) (Chain σ)
  | .error at? => .error (at?.map g)
  | .ok c => .ok (c.map g)

theorem reading_map {τ σ : Type} {g : τ → σ} {token : τ → Token} {token' : σ → Token}
    (unary : ∀ t, (token' (g t)).unaryOp? = (token t).unaryOp?)
    (binary : ∀ t, (token' (g t)).binaryOp? = (token t).binaryOp?) (run : List τ) :
    (∀ last? signs, beforeOperand token' (Option.map g last?) (signs.map fun s => (s.1, g s.2))
        (run.map g) = mapResult g (beforeOperand token last? signs run)) ∧
    (∀ piece, inOperand token' (Piece.map g piece) (run.map g) =
      mapResult g (inOperand token piece run)) := by
  -- Both states of the reader at once, since each goes on in the other.
  induction run with
  | nil => exact ⟨fun _ _ => rfl, fun _ => rfl⟩
  | cons t rest ih =>
    obtain ⟨before, inside⟩ := ih
    constructor
    · intro last? signs
      simp only [List.map_cons, beforeOperand, unary, binary]
      split
      · rename_i op found
        have more := before (some t) (signs ++ [(op, t)])
        simpa using more
      · split
        · rfl
        · exact inside ⟨signs, [t]⟩
    · intro piece
      simp only [List.map_cons, inOperand, binary]
      split
      · have after := before (some t) []
        simp only [Option.map_some, List.map_nil] at after
        rw [after]
        cases beforeOperand token (some t) [] rest <;> rfl
      · have longer := inside ⟨piece.signs, piece.run ++ [t]⟩
        simpa [Piece.map] using longer

theorem split_map {τ σ : Type} {g : τ → σ} {token : τ → Token} {token' : σ → Token}
    (unary : ∀ t, (token' (g t)).unaryOp? = (token t).unaryOp?)
    (binary : ∀ t, (token' (g t)).binaryOp? = (token t).binaryOp?) (run : List τ) :
    split token' (run.map g) = mapResult g (split token run) :=
  (reading_map unary binary run).1 none []

end Chain

/-! ## Forms -/

mutual

def Form.mapPlaces : Form → Form
  | .invalid at? => .invalid (at?.map f)
  | .literal value => .literal value
  | .name text last? => .name text (last?.map f)
  | .tuple items place => .tuple (mapPartPlaces items) (f place)
  | .empty bracket => .empty bracket
  | .group bracket first inner => .group bracket (f first) inner.mapPlaces
  | .call callee last? args paren => .call callee (last?.map f) (mapPartPlaces args) (f paren)
  | .operation first rest => .operation first.mapPlaces (mapOperationPlaces rest)
termination_by structural form => form

def mapPartPlaces : List Part → List Part
  | [] => []
  | .missing :: rest => .missing :: mapPartPlaces rest
  | .run first form :: rest => .run (f first) form.mapPlaces :: mapPartPlaces rest
termination_by structural parts => parts

def Operand.mapPlaces : Operand → Operand
  | .mk signs form => .mk (signs.map fun s => (s.1, f s.2)) form.mapPlaces
termination_by structural operand => operand

def mapOperationPlaces : List Operation → List Operation
  | [] => []
  | .mk op place operand :: rest =>
      .mk op (f place) operand.mapPlaces :: mapOperationPlaces rest
termination_by structural operations => operations

end

theorem Form.ofLeaf_mapPlaces (l : Leaf) (place : Place) :
    Form.ofLeaf l (f place) = (Form.ofLeaf l place).mapPlaces f := by
  unfold Form.ofLeaf
  split <;> first | rfl | skip
  split
  · rfl
  · split <;> rfl

theorem Form.args_mapPlaces (form : Form) :
    (form.mapPlaces f).args = mapPartPlaces f form.args := by
  cases form with
  | group bracket first inner => cases inner <;> rfl
  | _ => rfl

namespace Noted

def mapPlaces (n : Noted) : Noted :=
  ⟨n.token.mapPlaces f, n.form.mapPlaces f⟩

@[simp] theorem token_mapPlaces (n : Noted) : (n.mapPlaces f).token = n.token.mapPlaces f :=
  rfl

@[simp] theorem form_mapPlaces (n : Noted) : (n.mapPlaces f).form = n.form.mapPlaces f :=
  rfl

@[simp] theorem tokens_mapPlaces (run : List Noted) :
    tokens (run.map (mapPlaces f)) = (tokens run).map (Token.mapPlaces f) := by
  simp [tokens, mapPlaces]

theorem callForm_mapPlaces (run : List Noted) :
    callForm (run.map (mapPlaces f)) = (callForm run).mapPlaces f := by
  unfold callForm
  simp only [splitAtFirst_map, token_mapPlaces, Token.isParenGroup_mapPlaces]
  cases splitAtFirst (fun n => n.token.isParenGroup) run with
  | none => simp [Form.mapPlaces]
  | some parts =>
    obtain ⟨head, paren, tail⟩ := parts
    cases tail with
    | cons next tail => simp [Form.mapPlaces]
    | nil =>
      cases found : dottedName? (tokens head) with
      | some name => simp [found, Form.mapPlaces, Form.args_mapPlaces]
      | none => cases first : firstPlace? (tokens head) <;> simp [found, first, Form.mapPlaces]

theorem atomForm?_mapPlaces (run : List Noted) :
    atomForm? (run.map (mapPlaces f)) = (atomForm? run).map (Form.mapPlaces f) := by
  match run with
  | [] => rfl
  | [n] => rfl
  | n :: m :: rest =>
    have call := callForm_mapPlaces f (n :: m :: rest)
    have tokens := tokens_mapPlaces f (n :: m :: rest)
    simp only [List.map_cons] at call tokens
    simp only [List.map_cons, atomForm?, call, tokens]
    simp only [dottedName?_mapPlaces, isCall_mapPlaces, lastPlace?_mapPlaces]
    split
    · rfl
    · split <;> rfl

theorem operand_mapPlaces (piece : Piece Noted) :
    operand (piece.map (mapPlaces f)) = (operand piece).mapPlaces f := by
  cases found : atomForm? piece.run <;>
    simp [operand, Piece.map, Operand.mapPlaces, Form.mapPlaces, atomForm?_mapPlaces, found]

theorem mapOperationPlaces_eq_map (rest : List Operation) : mapOperationPlaces f rest =
    rest.map fun | .mk op place operand => .mk op (f place) (operand.mapPlaces f) := by
  induction rest with
  | nil => rfl
  | cons x rest ih =>
    cases x
    rw [mapOperationPlaces, ih, List.map_cons]

theorem operationForm_mapPlaces (run : List Noted) :
    operationForm (run.map (mapPlaces f)) = (operationForm run).mapPlaces f := by
  have split : Chain.split token (run.map (mapPlaces f)) =
      Chain.mapResult (mapPlaces f) (Chain.split token run) :=
    Chain.split_map (fun n => n.token.unaryOp?_mapPlaces f)
      (fun n => n.token.binaryOp?_mapPlaces f) run
  unfold operationForm
  rw [split]
  cases Chain.split token run with
  | error at? => cases at? <;> simp [Chain.mapResult, Form.mapPlaces]
  | ok chain =>
    simp [Chain.mapResult, Chain.map, Form.mapPlaces, operand_mapPlaces, mapOperationPlaces_eq_map]

theorem runForm_mapPlaces (run : List Noted) :
    runForm (run.map (mapPlaces f)) = (runForm run).mapPlaces f := by
  unfold runForm
  rw [atomForm?_mapPlaces, operationForm_mapPlaces]
  cases atomForm? run <;> rfl

end Noted

mutual

theorem Token.form_mapPlaces (t : Token) : (t.mapPlaces f).form = t.form.mapPlaces f := by
  match t with
  | .leaf l place => exact Form.ofLeaf_mapPlaces f l place
  | .tuple items place =>
    have parts := itemParts_mapPlaces items
    simp only [Token.mapPlaces, Token.form, Form.mapPlaces, parts]
  | .group bracket [] place => rfl
  | .group bracket (u :: inner) place =>
    have first := Token.form_mapPlaces u
    have rest := noteTokens_mapPlaces inner
    have whole := Noted.runForm_mapPlaces f (⟨u, u.form⟩ :: noteTokens inner)
    simp only [List.map_cons, Noted.mapPlaces] at whole
    simp only [Token.mapPlaces, mapRunPlaces, Token.form, Form.mapPlaces, first, rest, whole,
      Token.place_mapPlaces]
termination_by structural t

theorem noteTokens_mapPlaces (run : List Token) :
    noteTokens (mapRunPlaces f run) = (noteTokens run).map (Noted.mapPlaces f) := by
  match run with
  | [] => rfl
  | t :: rest =>
    have first := Token.form_mapPlaces t
    have below := noteTokens_mapPlaces rest
    simp only [mapRunPlaces, noteTokens, first, below, List.map_cons, Noted.mapPlaces]
termination_by structural run

theorem itemParts_mapPlaces (items : List (List Token)) :
    itemParts (mapItemPlaces f items) = mapPartPlaces f (itemParts items) := by
  match items with
  | [] => rfl
  | [[]] => rfl
  | [] :: item :: rest =>
    have below := itemParts_mapPlaces (item :: rest)
    simp only [mapItemPlaces] at below
    simp only [mapItemPlaces, mapRunPlaces, itemParts, mapPartPlaces, below]
  | (t :: run) :: rest =>
    have first := Token.form_mapPlaces t
    have item := noteTokens_mapPlaces run
    have below := itemParts_mapPlaces rest
    have whole := Noted.runForm_mapPlaces f (⟨t, t.form⟩ :: noteTokens run)
    simp only [List.map_cons, Noted.mapPlaces] at whole
    simp only [mapItemPlaces, mapRunPlaces, itemParts, mapPartPlaces, first, item, below, whole,
      Token.place_mapPlaces]
termination_by structural items

end

/-- The form of a run does not depend on where its tokens are. -/
theorem Form.ofTokens_mapPlaces (run : List Token) :
    Form.ofTokens (run.map (Token.mapPlaces f)) = (Form.ofTokens run).mapPlaces f := by
  unfold Form.ofTokens
  rw [← mapRunPlaces_eq_map, noteTokens_mapPlaces, Noted.runForm_mapPlaces]

end ExprCheck
