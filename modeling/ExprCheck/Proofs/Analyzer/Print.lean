import ExprCheck.Proofs.Analyzer.Composed
import ExprCheck.Proofs.Analyzer.Places
import ExprCheck.Proofs.Analyzer.Printable
import ExprCheck.Proofs.Print
import ExprCheck.Proofs.Token.Lines
/-! Reading written expressions. An expression that an analysis made is made again from the tokens
that it is written with. Each typing rule of the expression is the one by which the analysis goes
on, so no fault can be met. -/
namespace ExprCheck

namespace Analyzer

open Analysis

variable {a : Analyzer} {source : List Literal} {style : PrintStyle}

/-! ## Steps -/

theorem conclude_returns (first? : Option Place) (value : Expr) :
    (conclude first? none value).Returns value := by
  unfold conclude
  split
  · rename_i absurd
    cases absurd
  · exact (returns_warn first?).bind (returns_pure value)
  · exact returns_pure value

theorem applyUnary_returns {op : UnaryOp} {operand : Expr} {result : ResultType}
    (gives : op.Gives operand.resultType result) (place : Place) :
    (a.applyUnary op place operand).Returns (.mkUnary a.track op operand result) := by
  unfold applyUnary
  unfold UnaryOp.Gives at gives
  split at gives
  · rename_i ty known
    obtain ⟨found, gives, rfl⟩ := gives
    simp only [known, gives]
    exact returns_pure _
  · rename_i unknown
    subst gives
    split
    · rename_i ty known
      exact absurd known (unknown ty)
    · exact returns_pure _

theorem applyBinary_returns {op : BinaryOp} {left right : Expr} {result : ResultType}
    (gives : op.Gives left.resultType right.resultType result) (place : Place) :
    (a.applyBinary op place left right).Returns (.mkBinary a.track op left right result) := by
  unfold applyBinary
  unfold BinaryOp.Gives at gives
  split at gives
  · rename_i l r knownLeft knownRight
    obtain ⟨found, gives, rfl⟩ := gives
    simp only [knownLeft, knownRight, gives]
    exact returns_pure _
  · rename_i unknown
    subst gives
    split
    · rename_i l r knownLeft knownRight
      exact absurd knownRight (unknown l r knownLeft)
    · exact returns_pure _

theorem compareArgument_returns {param : ParamSpec} {value : Expr}
    (agrees : ∀ expected found, param.expected = .known expected →
      value.resultType = .known found → found = expected) (first : Place) :
    (compareArgument param first value).Returns () := by
  unfold compareArgument
  split
  · rename_i expected found knownParam knownValue
    rw [if_pos (agrees expected found knownParam knownValue).symm]
    exact returns_pure ()
  · exact returns_pure ()

/-! ## Items and arguments -/

/-- The parts are runs that the values are made of. -/
inductive Reads (a : Analyzer) : List Part → List Expr → Prop
  | nil : Reads a [] []
  | cons {first : Place} {form : Form} {value : Expr} {parts : List Part} {values : List Expr}
      (here : (a.node form).Returns value) (below : Reads a parts values) :
      Reads a (.run first form :: parts) (value :: values)

namespace Reads

variable {parts : List Part} {values : List Expr}

theorem length (h : a.Reads parts values) : parts.length = values.length := by
  induction h with
  | nil => rfl
  | cons here below ih => exact congrArg Nat.succ ih

theorem complete (h : a.Reads parts values) : anyMissing parts = false := by
  induction h with
  | nil => rfl
  | cons here below ih => exact ih

theorem itemNodes (h : a.Reads parts values) (place : Place) :
    (a.itemNodes place parts).Returns values := by
  induction h with
  | nil => exact returns_pure []
  | @cons first form value parts values here below ih =>
    have settled := conclude_returns (some first) value
    exact here.bind (settled.bind (ih.bind (returns_pure _)))

theorem argumentNodes (h : a.Reads parts values) {params : ParamList}
    (fits : values.length ≤ params.length) (agrees : AgreesWith params values) :
    (a.argumentNodes params parts).Returns values := by
  induction h generalizing params with
  | nil => cases params <;> exact returns_pure []
  | @cons first form value parts values here below ih =>
    cases params with
    | nil => simp at fits
    | cons param params =>
      have agreesHere := agrees (param, value) List.mem_cons_self
      have agreesBelow : AgreesWith params values := fun x mem =>
        agrees x (List.mem_cons_of_mem _ mem)
      have settled := conclude_returns (some first) value
      have compared := compareArgument_returns agreesHere first
      have rest := ih (Nat.le_of_succ_le_succ fits) agreesBelow
      exact here.bind (settled.bind (compared.bind (rest.bind (returns_pure _))))

theorem passArguments (h : a.Reads parts values) (name : String) {params : ParamList}
    {required : Nat} (enough : required ≤ values.length) (fits : values.length ≤ params.length)
    (agrees : AgreesWith params values) (paren : Place) {next : List Expr → Analysis Expr}
    {e : Expr} (used : (next values).Returns e) :
    (checkArguments name params required parts paren >>= fun _ =>
      (a.argumentNodes params parts).whole >>= next).Returns e := by
  have counted : (checkArguments name params required parts paren).Returns () := by
    have notMore : ¬params.length < values.length := by omega
    have notFewer : ¬values.length < required := by omega
    simp only [checkArguments, checkCount, h.complete, h.length, notMore, notFewer]
    exact returns_pure ()
  exact counted.bind ((h.argumentNodes fits agrees).whole.bind used)

end Reads

/-! ## Written expressions -/

/-- The expression is made again from the tokens that it is written with. -/
def Rereads (a : Analyzer) (style : PrintStyle) (e : Expr) : Prop :=
  (a.node (.ofTokens (e.print style))).Returns e

theorem reads_itemParts {values : List Expr} (trailing : Bool)
    (made : ∀ e ∈ values, a.Rereads style e) :
    a.Reads (itemParts (printItems style values ++ if trailing then [[]] else [])) values := by
  induction values with
  | nil => cases trailing <;> exact .nil
  | cons e rest ih =>
    obtain ⟨here, below⟩ := List.forall_mem_cons.mp made
    obtain ⟨t, run, starts⟩ := List.exists_cons_of_ne_nil (e.print_ne_nil style)
    unfold Rereads at here
    rw [starts] at here
    rw [printItems, starts]
    exact .cons here (ih below)

theorem reads_args {values : List Expr} (trailing : Bool)
    (made : ∀ e ∈ values, a.Rereads style e) :
    a.Reads
      (Token.enclosed .paren (commaTokens trailing (printItems style values))).form.args
      values := by
  have items := reads_itemParts trailing made
  match values with
  | [] => exact .nil
  | [e] =>
    cases trailing with
    | true => exact items
    | false =>
      -- Without a comma there is no tuple, so the argument must not be read as the list.
      have here := made e List.mem_cons_self
      obtain ⟨first, -, args⟩ := Form.args_group (e.print_ne_nil style) (e.print_ne_tuple style)
        .nowhere
      change a.Reads (Token.group .paren (e.print style) .nowhere).form.args [e]
      rw [args]
      exact .cons here .nil
  | e :: next :: rest => exact items

theorem rereads_literal (value : Literal) : a.Rereads style (.ofLiteral a.track value) := by
  obtain ⟨l, form, sameValue, sameType⟩ := style.ofLeaf_literal value .nowhere
  have same : Expr.ofLiteral a.track l = Expr.ofLiteral a.track value := by
    rw [Expr.ofLiteral, Expr.ofLiteral, sameValue, sameType]
  change (a.node (Form.ofLeaf (style.literal value.value value.ty) _)).Returns _
  rw [form, ← same]
  exact returns_pure _

theorem rereads_name {text : String} (free : Unreserved text) {symbol : Symbol}
    (found : a.lookup text = some symbol) :
    a.Rereads style (.mkName a.track text symbol.valueType) := by
  change (a.node (.ofTokens (nameTokens text))).Returns _
  rw [Form.ofTokens_name free, node, nameNode, found]
  exact returns_pure _

theorem rereads_collection {kind : Collection} {items : List Expr}
    (made : ∀ e ∈ items, a.Rereads style e) (some : kind = .set → items ≠ []) :
    a.Rereads style (.mkCollection a.track kind items) := by
  have reads := reads_itemParts true made
  change (a.node (.ofTokens
    [.enclosed kind.bracket (commaTokens true (printItems style items))])).Returns _
  cases items with
  | nil =>
    cases kind with
    | tuple | list => exact returns_pure _
    | set => exact absurd rfl (some rfl)
  | cons e rest =>
    have written : printItems style (e :: rest) ≠ [] := List.cons_ne_nil _ _
    rw [commaTokens_true written]
    cases kind <;> exact (reads.itemNodes _).bind (returns_pure _)

theorem rereads_call {callee name : String} {params : ParamList} {returns : ResultType}
    {span : Span} {args : List Expr} (free : Unreserved callee)
    (found : a.lookup callee = some (.function name params returns span))
    (enough : params.required ≤ args.length) (fits : args.length ≤ params.length)
    (agrees : AgreesWith params args) (made : ∀ e ∈ args, a.Rereads style e) :
    a.Rereads style (.mkCall a.track callee args returns) := by
  have reads := reads_args style.trailing made
  change (a.node (.ofTokens (nameTokens callee ++ [_]))).Returns _
  rw [Token.enclosed, Form.ofTokens_call (dottedName?_nameTokens free), node, found]
  exact reads.passArguments name enough fits agrees _ (returns_pure _)

theorem rereads_init {callee name qualified : String} {fields : ParamList} {span : Span}
    {values : List Expr} (free : Unreserved callee)
    (found : a.lookup callee = some (.struct name qualified fields span))
    (complete : values.length = fields.length) (agrees : AgreesWith fields values)
    (made : ∀ e ∈ values, a.Rereads style e) :
    a.Rereads style (.mkInit a.track callee qualified (slots fields) values) := by
  have reads := reads_args style.trailing made
  have enough : fields.length ≤ values.length := Nat.le_of_eq complete.symm
  have fits : values.length ≤ fields.length := Nat.le_of_eq complete
  change (a.node (.ofTokens (nameTokens callee ++ [_]))).Returns _
  rw [Token.enclosed, Form.ofTokens_call (dottedName?_nameTokens free), node, found]
  exact reads.passArguments name enough fits agrees _ (returns_pure _)

def enclosedOperand (style : PrintStyle) (signs : List (UnaryOp × Place)) (e : Expr) : Operand :=
  .mk signs (Token.enclosed .paren (e.print style)).form

theorem operandNode_enclosed {e value : Expr} {signs : List (UnaryOp × Place)}
    (made : a.Rereads style e) (signed : (a.applySigns signs e).Returns value) :
    (a.operandNode (enclosedOperand style signs e)).Returns value := by
  obtain ⟨first, form⟩ := Token.form_enclosed .paren (e.print_ne_nil style)
  unfold enclosedOperand
  rw [form]
  exact Returns.bind made signed

theorem rereads_unary {op : UnaryOp} {operand : Expr} {result : ResultType}
    (gives : op.Gives operand.resultType result) (made : a.Rereads style operand) :
    a.Rereads style (.mkUnary a.track op operand result) := by
  have signed : (a.applySigns [(op, .nowhere)] operand).Returns
      (.mkUnary a.track op operand result) :=
    (returns_pure operand).bind (applyUnary_returns gives .nowhere)
  have head := operandNode_enclosed made signed
  change (a.node (.ofTokens [.written op.leaf, .enclosed .paren (operand.print style)])).Returns _
  rw [Form.ofTokens_unary, node, operationNodes]
  exact head.bind ((returns_pure []).bind (returns_pure _))

theorem rereads_binary {op : BinaryOp} {left right : Expr} {result : ResultType}
    (gives : op.Gives left.resultType right.resultType result) (first : a.Rereads style left)
    (second : a.Rereads style right) :
    a.Rereads style (.mkBinary a.track op left right result) := by
  have unsigned (e : Expr) : (a.applySigns [] e).Returns e := returns_pure e
  have head := operandNode_enclosed first (unsigned left)
  have operand := operandNode_enclosed second (unsigned right)
  have tail : (a.operationNodes [.mk op .nowhere (enclosedOperand style [] right)]).Returns
      [(op, .nowhere, right)] := by
    rw [operationNodes]
    have noMore : (a.operationNodes []).Returns [] := returns_pure []
    exact operand.bind (noMore.bind (returns_pure [(op, Place.nowhere, right)]))
  have joined : (a.applyTree (.ofChain left [(op, .nowhere, right)])).Returns
      (.mkBinary a.track op left right result) :=
    (returns_pure left).bind ((returns_pure right).bind (applyBinary_returns gives .nowhere))
  change (a.node (.ofTokens [.enclosed .paren (left.print style), .written op.leaf,
    .enclosed .paren (right.print style)])).Returns _
  rw [Form.ofTokens_binary, node]
  exact head.bind (tail.bind joined)

/-- What the rules derive is made again, if all its nodes are printable. -/
theorem Builds.rereads {e : Expr} (built : a.Builds source e) (printable : AllPrintable e) :
    a.Rereads style e := by
  induction built with
  | literal known => exact rereads_literal _
  | name found => exact rereads_name (printable _ List.mem_cons_self) found
  | collection parts ih =>
    obtain ⟨some, below⟩ := List.forall_mem_cons.mp printable
    have inside := allPrintable_nodesOf_iff.mp below
    exact rereads_collection (fun e mem => ih e mem (inside e mem)) some
  | dict => exact returns_pure _
  | call found enough fits agrees parts ih =>
    obtain ⟨free, below⟩ := List.forall_mem_cons.mp printable
    have inside := allPrintable_nodesOf_iff.mp below
    exact rereads_call free found enough fits agrees fun e mem => ih e mem (inside e mem)
  | init found complete agrees parts ih =>
    obtain ⟨free, below⟩ := List.forall_mem_cons.mp printable
    have inside := allPrintable_nodesOf_iff.mp below
    exact rereads_init free found complete agrees fun e mem => ih e mem (inside e mem)
  | unary gives part ih =>
    obtain ⟨-, below⟩ := List.forall_mem_cons.mp printable
    exact rereads_unary gives (ih below)
  | binary gives first second ihFirst ihSecond =>
    obtain ⟨-, below⟩ := List.forall_mem_cons.mp printable
    obtain ⟨inLeft, inRight⟩ := List.forall_mem_append.mp below
    exact rereads_binary gives (ihFirst inLeft) (ihSecond inRight)

/-- An expression that was made of tokens of a source is made again, with the same types and marks,
from the tokens that it is written with, wherever these stand. Nothing but warnings is logged. -/
theorem analyze_print {source : String} {tokens run : List Token} {e : Expr} {log : Log}
    (read : tokenize source = .ok tokens) (stands : ∀ t ∈ run, ∃ u ∈ tokens, t.Within u)
    (made : (a.analyze none run log).1 = some e) (style : PrintStyle) {written : List Token}
    (same : written.map (Token.mapPlaces fun _ => .nowhere) = e.print style) :
    ∀ before, ∃ new, a.analyze none written before = (some e, before ++ new) ∧ new.Clean := by
  have regular : ∀ t ∈ run, t.Regular := fun t mem => regular_of_tokenize read (stands t mem)
  have printable : AllPrintable e := (analyze_printable none regular).result made
  have built : a.Builds (runLiterals run) e := by
    obtain ⟨new, -, yields⟩ := analyze_yields (a := a) none run log
    exact (yields e made).2.1
  have printed : (a.analyze none (e.print style)).Returns e :=
    (built.rereads printable).bind (conclude_returns _ e)
  intro before
  -- The result does not depend on where the tokens stand, and what has a result logs no error.
  have elsewhere := a.analyze_mirrors none written (f := fun _ => .nowhere) before
  rw [same] at elsewhere
  obtain ⟨_, -, answered, -⟩ := printed (before.mapPlaces fun _ => .nowhere)
  rw [elsewhere, Option.map_id] at answered
  have composed : Analysis.Composed (fun _ => True) false (a.analyze none written) :=
    a.analyze_composed (fun _ _ => trivial) none written (.inl trivial)
  obtain ⟨new, appended, -, clean⟩ := composed.reports before
  exact ⟨new, Prod.ext answered appended, clean rfl (answered ▸ Option.some_ne_none e)⟩

/- The only item of the list is a tuple, and stays one. -/
theorem analyze_print_listOfTuple :
    ∃ (a : Analyzer) (e item : Expr) (style : PrintStyle) (run : List Token),
      e = .mkCollection a.track .list [item] ∧ item.ownType = .known .tuple ∧
      (a.analyze none run []).1 = some e ∧
      ∀ before, ∃ new, a.analyze none (e.print style) before = (some e, before ++ new) ∧
        new.Clean := by
  let a : Analyzer := ⟨fun _ => none, true⟩
  let one : Expr := .mkLiteral true "1" (.int .i32)
  let item : Expr := .mkCollection true .tuple [one, one]
  let style : PrintStyle := ⟨fun _ => '\x27', fun _ => rfl, false⟩
  let leaf (start : Nat) : Token := .leaf (.number "1") ⟨⟨start, start + 1⟩, 1⟩
  let run : List Token :=
    [.group .square
      [.group .paren [.tuple [[leaf 2], [leaf 4]] ⟨⟨2, 5⟩, 1⟩] ⟨⟨1, 6⟩, 1⟩] ⟨⟨0, 7⟩, 1⟩]
  have read : tokenize "[(1,1)]" = .ok (run ++ [.leaf .endMarker ⟨⟨7, 7⟩, 1⟩]) :=
    tokenize_eq_ok_iff.mpr ⟨_, _, .lexeme rfl rfl (.lexeme rfl rfl (.lexeme rfl rfl
      (.lexeme rfl rfl (.lexeme rfl rfl (.lexeme rfl rfl (.lexeme rfl rfl (.done _))))))),
      rfl, rfl, rfl⟩
  have made : (a.analyze none run []).1 = some (.mkCollection true .list [item]) := rfl
  have stands : ∀ t ∈ run, ∃ u ∈ run ++ [Token.leaf .endMarker ⟨⟨7, 7⟩, 1⟩], t.Within u :=
    fun t mem => ⟨t, List.mem_append_left _ mem, .self⟩
  exact ⟨a, _, item, style, run, rfl, rfl, made, analyze_print read stands made style rfl⟩

end Analyzer

end ExprCheck
