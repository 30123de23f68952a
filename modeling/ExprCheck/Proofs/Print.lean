import ExprCheck.Proofs.Form.Regular
import ExprCheck.Proofs.Literal
/-! Writing expressions down. The tokens of an expression stand nowhere in particular. Operands
stand in parentheses, so no operator takes from another one. Main statements: how the forms of
written tokens are made. -/
namespace ExprCheck

/-- What the writing of an expression leaves open: the quotes around a text, and whether a comma
stands behind the last argument of a call. -/
structure PrintStyle where
  quote : String → Char
  isQuote : ∀ text, Lexeme.isQuote (quote text) = true
  trailing : Bool

def UnaryOp.leaf (op : UnaryOp) : Leaf :=
  if op = not then .name op.symbol else .op op.symbol

def BinaryOp.leaf (op : BinaryOp) : Leaf :=
  if op.isLogical then .name op.symbol else .op op.symbol

def Collection.bracket : Collection → Bracket
  | tuple => .paren
  | list => .square
  | set => .brace

def Place.nowhere : Place :=
  ⟨.point 0, 0⟩

namespace Token

def written (l : Leaf) : Token :=
  .leaf l .nowhere

def enclosed (bracket : Bracket) (inner : List Token) : Token :=
  .group bracket inner .nowhere

end Token

/-- The content of brackets: items with commas between them. -/
def commaTokens (trailing : Bool) : List (List Token) → List Token
  | [] => []
  | [item] => if trailing then [.tuple [item, []] .nowhere] else item
  | items => [.tuple (items ++ if trailing then [[]] else []) .nowhere]

theorem commaTokens_true {items : List (List Token)} (some : items ≠ []) :
    commaTokens true items = [.tuple (items ++ [[]]) .nowhere] := by
  match items with
  | [] => exact absurd rfl some
  | [_] | _ :: _ :: _ => rfl

def nameTokens (text : String) : List Token :=
  ((dotParts text).map fun part => Token.written (.name part)).intersperse (.written .dot)

def PrintStyle.quoted (style : PrintStyle) (text : String) : String :=
  (style.quote text).toString ++ text ++ (style.quote text).toString

/-- A literal is told by its type: a `char` is a text behind a `c`. -/
def PrintStyle.literal (style : PrintStyle) (value : String) : Ty → Leaf
  | .bool => .name value
  | .str => .str (style.quoted value)
  | .char => .str ("c" ++ style.quoted value)
  | _ => .number value

mutual

def Expr.print (style : PrintStyle) : Expr → List Token
  | .literal _ value ty => [.written (style.literal value ty)]
  | .name _ text => nameTokens text
  | .collection _ kind items => [.enclosed kind.bracket (commaTokens true (printItems style items))]
  | .dict _ => [.enclosed .brace []]
  | .call _ callee args =>
      nameTokens callee ++ [.enclosed .paren (commaTokens style.trailing (printItems style args))]
  | .init _ callee _ _ values =>
      nameTokens callee ++ [.enclosed .paren (commaTokens style.trailing (printItems style values))]
  | .unary _ op operand => [.written op.leaf, .enclosed .paren (operand.print style)]
  | .binary _ op left right =>
      [.enclosed .paren (left.print style), .written op.leaf, .enclosed .paren (right.print style)]
termination_by structural e => e

def printItems (style : PrintStyle) : List Expr → List (List Token)
  | [] => []
  | e :: rest => e.print style :: printItems style rest
termination_by structural es => es

end

variable {style : PrintStyle}

/-! ## Names -/

/-- Names with dots between them, reserved or not, wherever they stand. -/
inductive Dotted : List Token → List String → Prop
  | single {text : String} {place : Place} : Dotted [.leaf (.name text) place] [text]
  | more {text : String} {place dot : Place} {run : List Token} {parts : List String}
      (rest : Dotted run parts) :
      Dotted (.leaf (.name text) place :: .leaf .dot dot :: run) (text :: parts)

theorem Dotted.spells {run : List Token} {parts : List String} (h : Dotted run parts)
    (free : ∀ part ∈ parts, isReserved part = false) : Grammar.Name run parts := by
  induction h with
  | single => exact .single (free _ List.mem_cons_self)
  | more rest ih =>
    obtain ⟨here, below⟩ := List.forall_mem_cons.mp free
    exact .dotted here (ih below)

theorem nameTokens_dotted (text : String) : Dotted (nameTokens text) (dotParts text) := by
  have dotted (parts : List String) (some : parts ≠ []) : Dotted
      ((parts.map fun part => Token.written (.name part)).intersperse (.written .dot)) parts := by
    induction parts with
    | nil => exact absurd rfl some
    | cons part rest ih =>
      cases rest with
      | nil => exact .single
      | cons next rest => exact .more (ih (List.cons_ne_nil next rest))
  exact dotted (dotParts text) (dotParts_ne_nil text)

theorem nameTokens_spell {text : String} (free : Unreserved text) :
    Grammar.Name (nameTokens text) (dotParts text) :=
  (nameTokens_dotted text).spells free

theorem dottedName?_nameTokens {text : String} (free : Unreserved text) :
    dottedName? (nameTokens text) = some text :=
  Grammar.dottedName?_eq_some_iff.mpr ⟨_, nameTokens_spell free, intercalate_dotParts text⟩

theorem nameTokens_eq_cons (text : String) :
    ∃ part rest, nameTokens text = .written (.name part) :: rest := by
  obtain ⟨part, rest, parts⟩ := List.exists_cons_of_ne_nil (dotParts_ne_nil text)
  unfold nameTokens
  rw [parts]
  cases rest <;> exact ⟨_, _, rfl⟩

/-! ## Literals -/

theorem PrintStyle.toList_quoted (style : PrintStyle) (text : String) :
    (style.quoted text).toList = (style.quote text :: text.toList) ++ [style.quote text] := by
  simp [quoted]

theorem PrintStyle.unquote_quoted (style : PrintStyle) (text : String) :
    unquote (style.quoted text) = (text, .str) := by
  have chars : (style.quoted text).toList =
      [] ++ style.quote text :: (text.toList ++ [style.quote text]) := style.toList_quoted text
  rw [unquote_of_chars List.not_mem_nil chars, String.ofList_toList]
  rfl

theorem PrintStyle.unquote_char (style : PrintStyle) (text : String) :
    unquote ("c" ++ style.quoted text) = (text, .char) := by
  have chars : ("c" ++ style.quoted text).toList =
      ['c'] ++ style.quote text :: (text.toList ++ [style.quote text]) := by
    rw [String.toList_append, style.toList_quoted]
    rfl
  have differs : style.quote text ∉ ['c'] := by
    intro same
    have isQuote := style.isQuote text
    rw [List.mem_singleton.mp same] at isQuote
    cases isQuote
  rw [unquote_of_chars differs chars, String.ofList_toList]
  rfl

theorem PrintStyle.ofLeaf_literal (style : PrintStyle) (l : Literal) (place : Place) :
    ∃ l' : Literal, Form.ofLeaf (style.literal l.value l.ty) place = .literal l' ∧
      l'.value = l.value ∧ l'.ty = l.ty := by
  cases l with
  | str raw =>
    have value : (Literal.str raw).value = (unquote raw).1 := rfl
    have type : (Literal.str raw).ty = (unquote raw).2 := rfl
    rw [value, type]
    rcases unquote_ty raw with isStr | isChar
    · have back := style.unquote_quoted (unquote raw).1
      rw [isStr]
      refine ⟨.str (style.quoted (unquote raw).1), rfl, ?_, ?_⟩
      · rw [Literal.value, back]
      · rw [Literal.ty, back]
    · have back := style.unquote_char (unquote raw).1
      rw [isChar]
      refine ⟨.str ("c" ++ style.quoted (unquote raw).1), rfl, ?_, ?_⟩
      · rw [Literal.value, back]
      · rw [Literal.ty, back]
  | number raw =>
    refine ⟨.number raw, ?_, rfl, rfl⟩
    have type : (Literal.number raw).ty = Ty.ofNumber raw := rfl
    rw [type]
    rcases Ty.ofNumber_numeric raw with ⟨ty, numeric⟩ | ⟨ty, numeric⟩
    · rw [numeric]
      rfl
    · rw [numeric]
      rfl
  | bool value =>
    refine ⟨.bool value, ?_, rfl, rfl⟩
    cases value <;> rfl

/-! ## Forms -/

theorem Form.ofTokens_unary (op : UnaryOp) (inner : List Token) :
    Form.ofTokens [.written op.leaf, .enclosed .paren inner] =
      .operation (.mk [(op, .nowhere)] (Token.enclosed .paren inner).form) [] := by
  cases op <;> rfl

theorem Form.ofTokens_binary (op : BinaryOp) (left right : List Token) :
    Form.ofTokens [.enclosed .paren left, .written op.leaf, .enclosed .paren right] =
      .operation (.mk [] (Token.enclosed .paren left).form)
        [.mk op .nowhere (.mk [] (Token.enclosed .paren right).form)] := by
  cases op <;> rfl

theorem Grammar.Name.ofTokens {run : List Token} {parts : List String} (spells : Name run parts) :
    Form.ofTokens run = .name (".".intercalate parts) (lastPlace? run) := by
  have named := Grammar.dottedName?_eq_some_iff.mpr ⟨parts, spells, rfl⟩
  cases spells with
  | @single text place free =>
    have form : Form.ofLeaf (.name text) place = .name text place := by
      simp [Form.ofLeaf, Literal.ofName?_eq_none free, free]
    have whole : ".".intercalate [text] = text := by simp
    rw [whole]
    exact form
  | dotted free rest =>
    rw [← Grammar.tokens_noteTokens (_ :: _)] at named
    have atom := Noted.atomForm?_of_dottedName? (by simp [noteTokens]) named
    rw [Grammar.tokens_noteTokens] at atom
    unfold Form.ofTokens Noted.runForm
    rw [atom]
    rfl

theorem Form.ofTokens_name {text : String} (free : Unreserved text) :
    Form.ofTokens (nameTokens text) = .name text (lastPlace? (nameTokens text)) := by
  have form := (nameTokens_spell free).ofTokens
  rwa [intercalate_dotParts] at form

theorem Form.ofTokens_call {head : List Token} {callee : String}
    (named : dottedName? head = some callee) (inner : List Token) (place : Place) :
    Form.ofTokens (head ++ [.group .paren inner place]) =
      .call callee (lastPlace? head) (Token.group .paren inner place).form.args place := by
  have outside : ∀ t ∈ head, t.isParenGroup = false := fun t mem =>
    ((of_dottedName?_eq_some named).2 t mem).2
  let run := head ++ [Token.group .paren inner place]
  have call : isCall true (Noted.tokens (noteTokens run)) = true := by
    rw [Grammar.tokens_noteTokens, isCall, splitAtFirst_append_cons [] outside rfl]
    simp [named]
  obtain ⟨before, paren, name, whole, -, spells, atom⟩ := Noted.atomForm?_of_isCall call
  have parts : noteTokens head ++ noteTokens [.group .paren inner place] =
      before ++ [paren] := by
    rw [← whole, ← Grammar.noteTokens_append]
  obtain ⟨rfl, same⟩ := List.append_inj' parts rfl
  cases same
  rw [Grammar.tokens_noteTokens] at spells atom
  cases named.symm.trans spells
  change (Noted.atomForm? (noteTokens run)).getD _ = _
  rw [atom]
  rfl

theorem Token.form_enclosed (bracket : Bracket) {run : List Token} (some : run ≠ []) :
    ∃ first, (Token.enclosed bracket run).form = .group bracket first (.ofTokens run) := by
  obtain ⟨t, rest, rfl⟩ := List.exists_cons_of_ne_nil some
  exact ⟨t.place, rfl⟩

theorem Token.form_eq_tuple {t : Token} {items : List Part} {place : Place}
    (tuple : t.form = .tuple items place) : ∃ content, t = .tuple content place := by
  cases t with
  | leaf l place' =>
    cases l with
    | name text =>
      change Form.ofLeaf (.name text) place' = _ at tuple
      unfold Form.ofLeaf at tuple
      dsimp only at tuple
      split at tuple
      · cases tuple
      · split at tuple <;> cases tuple
    | _ => cases tuple
  | tuple content place' =>
    cases tuple
    exact ⟨content, rfl⟩
  | group bracket inner place' => cases inner <;> cases tuple

theorem Form.ofTokens_eq_tuple {run : List Token} {items : List Part} {place : Place}
    (tuple : Form.ofTokens run = .tuple items place) : ∃ content, run = [.tuple content place] := by
  unfold Form.ofTokens Noted.runForm at tuple
  cases atom : Noted.atomForm? (noteTokens run) with
  | none =>
    rw [atom] at tuple
    change Noted.operationForm _ = _ at tuple
    unfold Noted.operationForm at tuple
    split at tuple <;> cases tuple
  | some form =>
    rw [atom] at tuple
    have same : form = .tuple items place := tuple
    unfold Noted.atomForm? at atom
    split at atom
    · rename_i n single
      cases atom
      match run, single with
      | [t], rfl =>
        obtain ⟨content, rfl⟩ := Token.form_eq_tuple same
        exact ⟨content, rfl⟩
    · subst same
      split at atom
      · cases atom
      · split at atom
        · unfold Noted.callForm at atom
          split at atom
          · cases atom
          · cases atom
          · split at atom <;> cases atom
        · cases atom

theorem Form.args_group {run : List Token} (some : run ≠ [])
    (other : ∀ items place, run ≠ [.tuple items place]) (place : Place) :
    ∃ first ∈ firstPlace? run,
      (Token.group .paren run place).form.args = [.run first (.ofTokens run)] := by
  obtain ⟨t, rest, rfl⟩ := List.exists_cons_of_ne_nil some
  refine ⟨t.place, rfl, ?_⟩
  change Form.args (.group .paren t.place (.ofTokens (t :: rest))) = _
  unfold Form.args
  split
  · rename_i tuple
    injection tuple with _ _ tuple
    obtain ⟨content, same⟩ := Form.ofTokens_eq_tuple tuple
    exact absurd same (other content _)
  · rename_i same
    cases same
    rfl
  · rename_i group
    exact absurd rfl (group .paren t.place _)

/-! ## Expressions -/

theorem Expr.print_ne_nil (style : PrintStyle) (e : Expr) : e.print style ≠ [] := by
  cases e with
  | name mark text =>
    obtain ⟨part, rest, starts⟩ := nameTokens_eq_cons text
    have written : (name mark text).print style = .written (.name part) :: rest := starts
    rw [written]
    exact List.cons_ne_nil _ _
  | call | init => exact List.append_ne_nil_of_right_ne_nil _ (List.cons_ne_nil _ _)
  | _ => exact List.cons_ne_nil _ _

theorem Expr.print_ne_tuple (style : PrintStyle) (e : Expr) (items : List (List Token))
    (place : Place) : e.print style ≠ [.tuple items place] := by
  intro same
  cases e with
  | name mark text =>
    obtain ⟨part, rest, starts⟩ := nameTokens_eq_cons text
    cases starts.symm.trans same
  | call | init =>
    have last := congrArg List.getLast? same
    simp only [print, List.getLast?_concat] at last
    cases last
  | _ => cases same

end ExprCheck
