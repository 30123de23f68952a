import ExprCheck.Proofs.Analyzer.Builds
import ExprCheck.Proofs.Analyzer.Mismatches
import ExprCheck.Proofs.Analyzer.Runs
import ExprCheck.Proofs.Checked.Climb
import ExprCheck.Proofs.Checked.Cut
/-! Analyzing by positions. An analyzer that works on the tokens themselves has a few tasks that
call each other: to settle a whole expression, to read a run, to read a call, and to read operands
with operators between them. It looks at tokens by their positions without asking whether there are
any. Main statement: the analyses of forms satisfy these procedures, and no position in them is out
of range. -/
namespace ExprCheck

def Expr.tupleItems? : Expr → Option (List Expr)
  | .collection _ .tuple items => some items
  | _ => none

/-- What an analyzer is asked for. -/
inductive Analyzer.Task where
  | expression (expected? : Option Ty) (run : List Token)
  | run (run : List Token)
  | call (run : List Token)
  /-- Operands with operators between them. -/
  | assembly (run : List Token)

namespace Analyzer

def Task.tokens : Task → List Token
  | .expression _ tokens | .run tokens | .call tokens | .assembly tokens => tokens

section Procedures

variable (a : Analyzer) (ask : Task → Checked Expr)

/-- A type that is not the expected one is reported at the first token of the run. -/
def settle (expected? : Option Ty) (run : List Token) (node : Expr) : Checked Expr :=
  match node.resultType, expected? with
  | .known found, some expected =>
      if found = expected then pure node
      else do
        let first ← Checked.index run 0
        Checked.fail (.typeMismatch expected found) first.place
  | .undetermined, _ => do
      (Analysis.note .undetermined (firstPlace? run)).checked
      return node
  | _, _ => pure node

def expressionTask (expected? : Option Ty) (run : List Token) : Checked Expr := do
  settle expected? run (← ask (.run run))

def itemsTask (place : Place) : List (List Token) → Checked (List Expr)
  | [] => pure []
  | item :: rest =>
      if item.isEmpty then Checked.fail .invalidForm place
      else do
        let value ← ask (.expression none item)
        return value :: (← itemsTask place rest)

/-- What a collection holds whose brackets have the content `inner`: the items of a tuple that is
all of it, else the content itself. -/
def members (inner : List Token) (node : Expr) : List Expr :=
  match inner, node.tupleItems? with
  | [.tuple ..], some items => items
  | _, some items => [.mkCollection a.track .tuple items]
  | _, none => [node]

def groupTask (bracket : Bracket) (inner : List Token) : Checked Expr :=
  if inner.isEmpty then (a.node (.empty bracket)).checked
  else do
    let node ← ask (.run inner)
    match bracket with
    | .paren => return node
    | .square => return .mkCollection a.track .list (a.members inner node)
    | .brace => return .mkCollection a.track .set (a.members inner node)

def tokenTask : Token → Checked Expr
  | .leaf l place => (a.node (.ofLeaf l place)).checked
  | .tuple items place => do
      return .mkCollection a.track .tuple (← itemsTask ask place (Grammar.trimmed items))
  | .group bracket inner _ => a.groupTask ask bracket inner

def runTask (run : List Token) : Checked Expr :=
  Checked.whole <|
    match run with
    | [] => Checked.fail .invalidForm none
    | [t] => a.tokenTask ask t
    | _ =>
        match dottedName? run with
        | some name => (a.nameNode name (lastPlace? run)).checked
        | none => do
            if ← Checked.nameCall true run then ask (.call run) else ask (.assembly run)

/-- An argument of another type than its parameter is noted at its first token. -/
def compareTask (param : ParamSpec) (run : List Token) (value : Expr) : Checked Unit :=
  match param.expected, value.resultType with
  | .known expected, .known found =>
      if expected = found then pure ()
      else do
        let first ← Checked.index run 0
        (Analysis.note (.fault (.typeMismatch expected found)) first.place).checked
  | _, _ => pure ()

def argumentsTask : ParamList → List (List Token) → Checked (List Expr)
  | (_, param) :: params, run :: args => do
      let value ← ask (.expression none run)
      compareTask param run value
      return value :: (← argumentsTask params args)
  | _, _ => pure []

/-- The arguments in parentheses, if none is missing and their number fits. -/
def argumentRuns (name : String) (params : ParamList) (required : Nat) (paren : Token) :
    Checked (List (List Token)) :=
  if paren.arguments.any List.isEmpty then Checked.fail .invalidForm paren.place
  else do
    (checkCount name params required paren.arguments.length paren.place).checked
    return paren.arguments

/-- A call with the tokens of its name and its parentheses. -/
def calleeTask (head : List Token) (paren : Token) : Checked Expr :=
  match dottedName? head with
  | none => Checked.fail .invalidForm ((firstPlace? head).getD paren.place)
  | some callee =>
      match a.lookup callee with
      | some (.function name params returns _) => do
          let args ← argumentRuns name params params.required paren
          return .mkCall a.track callee (← (argumentsTask ask params args).whole) returns
      | some (.struct name qualified fields _) => do
          let args ← argumentRuns name fields fields.length paren
          return .mkInit a.track callee qualified (slots fields)
            (← (argumentsTask ask fields args).whole)
      | _ => do
          let last ← Checked.index head (head.length - 1)
          Checked.fail (.notCallable (unqualified callee)) last.place

def callTask (run : List Token) : Checked Expr :=
  match run.findIdx? Token.isParenGroup with
  | none => Checked.fail .invalidForm (lastPlace? run)
  | some position => do
      let head ← Checked.slice run 0 position
      let paren ← Checked.index run position
      if position + 1 = run.length then a.calleeTask ask head paren
      else Checked.fail .invalidForm (run[position + 1]?.map Token.place)

/-- Only an atom can be an operand. -/
def operandTask (run : List Token) : Checked Expr :=
  if run.length = 1 ∨ (dottedName? run).isSome then ask (.run run)
  else do
    if ← Checked.nameCall true run then ask (.call run)
    else Checked.fail .invalidForm (firstPlace? run)

def pieceTask (piece : Piece Token) : Checked Expr := do
  let value ← operandTask ask piece.run
  (a.applySigns (piece.signs.map fun (op, t) => (op, t.place)) value).checked

def piecesTask : List (Piece Token) → Checked (List Expr)
  | [] => pure []
  | piece :: rest => do
      let value ← a.pieceTask ask piece
      return value :: (← piecesTask rest)

def assemblyTask (run : List Token) : Checked Expr := do
  let (operands, operators) ← Checked.cut run
  let values ← a.piecesTask ask operands
  a.climbAll values (operators.map fun (op, t) => (op, t.place))

end Procedures

def procedure (a : Analyzer) : Procedure Task Expr := fun ask task =>
  match task with
  | .expression expected? run => expressionTask ask expected? run
  | .run run => a.runTask ask run
  | .call run => a.callTask ask run
  | .assembly run => a.assemblyTask ask run

def answer (a : Analyzer) : Task → Analysis Expr
  | .expression expected? run => a.analyze expected? run
  | .run run => a.node (.ofTokens run)
  | .call run => a.analyzeCall run
  | .assembly run => a.node (Noted.operationForm (noteTokens run))

variable {a : Analyzer}

def recalled (a : Analyzer) (task : Task) : Checked Expr :=
  (a.answer task).checked

theorem settle_eq (expected? : Option Ty) {run : List Token} (some : run ≠ []) (node : Expr) :
    settle expected? run node = (conclude (firstPlace? run) expected? node).checked := by
  obtain ⟨t, rest, rfl⟩ := List.exists_cons_of_ne_nil some
  unfold settle conclude
  generalize node.resultType = type
  cases type with
  | known found =>
    cases expected? with
    | none => rfl
    | some expected =>
      by_cases same : found = expected
      · simp only [if_pos same, Checked.checked_pure]
      · simp only [if_neg same]
        rfl
  | undetermined => rfl
  | own => rfl

theorem expressionTask_recalled (expected? : Option Ty) (run : List Token) :
    expressionTask a.recalled expected? run = (a.analyze expected? run).checked := by
  rw [analyze, Checked.checked_bind]
  cases run with
  | nil => rfl
  | cons t rest =>
    exact congrArg (Bind.bind _) (funext fun node => settle_eq expected? (List.cons_ne_nil t rest) node)

/-! ### Tokens -/

theorem itemsTask_recalled (place : Place) (items : List (List Token)) :
    itemsTask a.recalled place items = (a.itemNodes place (items.map Part.ofRun)).checked := by
  induction items with
  | nil => rfl
  | cons item rest ih =>
    cases item with
    | nil => rfl
    | cons t run =>
      rw [itemsTask, if_neg (by simp), ih, List.map_cons, Part.ofRun, itemNodes]
      simp only [recalled, answer, analyze, Checked.checked_bind, bind_assoc]
      rfl

theorem checked_bind_congr {α β : Type} {m : Analysis α} {P : α → Prop} {f g : α → Checked β}
    (yields : m.Yields fun x _ => P x) (same : ∀ x, P x → f x = g x) :
    m.checked >>= f = m.checked >>= g := by
  funext log
  have told (x : α) (found : (m log).1 = some x) : P x := yields.result found
  change Checked.bind m.checked f log = Checked.bind m.checked g log
  unfold Checked.bind Analysis.checked
  generalize m log = out at told ⊢
  obtain ⟨r, after⟩ := out
  cases r with
  | none => rfl
  | some x => exact congrFun (same x (told x rfl)) after

theorem members_eq {inner : List Token} {source : List Literal} {node : Expr}
    (other : ∀ items place, inner ≠ [.tuple items place]) (built : a.Builds source node) :
    a.members inner node = [node] := by
  unfold members
  split
  · exact absurd rfl (other _ _)
  · rename_i items _ same
    unfold Expr.tupleItems? at same
    split at same
    · cases same
      cases built
      rfl
    · cases same
  · rfl

/-- Brackets that make a collection of what stands between them, be it the items of a tuple or the
only item. -/
structure Collects (a : Analyzer) (bracket : Bracket) (kind : Collection) : Prop where
  tuple (first : Place) (items : List Part) (place : Place) :
    a.node (.group bracket first (.tuple items place)) =
      a.itemNodes place items >>= fun nodes => pure (.mkCollection a.track kind nodes)
  other (first : Place) (form : Form) (other : ∀ items place, form ≠ .tuple items place) :
    a.node (.group bracket first form) =
      a.node form >>= fun node => pure (.mkCollection a.track kind [node])

theorem collects_list (a : Analyzer) : a.Collects .square .list where
  tuple _ _ _ := rfl
  other _ form other := by
    cases form with
    | tuple items place => exact absurd rfl (other items place)
    | _ => rfl

theorem collects_set (a : Analyzer) : a.Collects .brace .set where
  tuple _ _ _ := rfl
  other _ form other := by
    cases form with
    | tuple items place => exact absurd rfl (other items place)
    | _ => rfl

theorem Collects.recalled {bracket : Bracket} {kind : Collection} (h : a.Collects bracket kind)
    (t : Token) (rest : List Token) (place : Place) :
    (a.recalled (.run (t :: rest)) >>= fun node =>
        pure (.mkCollection a.track kind (a.members (t :: rest) node))) =
      (a.node (Token.group bracket (t :: rest) place).form).checked := by
  change _ = (a.node (.group bracket t.place (.ofTokens (t :: rest)))).checked
  by_cases tuple : ∃ items place, t :: rest = [.tuple items place]
  · obtain ⟨items, place, same⟩ := tuple
    cases same
    change ((a.itemNodes place (itemParts items) >>= fun nodes =>
      pure (Expr.mkCollection a.track .tuple nodes)).checked >>= _) = (a.node (.group bracket place
        (.tuple (itemParts items) place))).checked
    rw [h.tuple, Checked.checked_bind, Checked.checked_bind, bind_assoc]
    rfl
  · have other (items : List Part) (place : Place) : Form.ofTokens (t :: rest) ≠ .tuple items place :=
      fun same => tuple ⟨_, _, (Form.ofTokens_eq_tuple same).choose_spec⟩
    rw [h.other _ _ other, Checked.checked_bind]
    refine checked_bind_congr (node_yields _ (List.Subset.refl _)) fun node made => ?_
    rw [members_eq (fun items place same => tuple ⟨items, place, same⟩) made.2]
    rfl

theorem groupTask_recalled (bracket : Bracket) (inner : List Token) (place : Place) :
    a.groupTask a.recalled bracket inner = (a.node (Token.group bracket inner place).form).checked := by
  cases inner with
  | nil => rfl
  | cons t rest =>
    cases bracket with
    | paren => exact bind_pure _
    | square => exact a.collects_list.recalled t rest place
    | brace => exact a.collects_set.recalled t rest place

theorem tokenTask_recalled (t : Token) : a.tokenTask a.recalled t = (a.node t.form).checked := by
  cases t with
  | leaf l place => rfl
  | tuple items place =>
    rw [tokenTask, itemsTask_recalled, ← itemParts_eq_map, Token.form, node, Checked.checked_bind]
    rfl
  | group bracket inner place => exact groupTask_recalled bracket inner place

/-! ### Runs -/

theorem runTask_recalled (run : List Token) :
    a.runTask a.recalled run = (a.node (.ofTokens run)).checked := by
  rw [← a.node_whole, Checked.checked_whole]
  unfold runTask
  refine congrArg Checked.whole ?_
  split
  · rfl
  · exact tokenTask_recalled _
  · rename_i empty several
    cases named : dottedName? run with
    | some name => simp only [Form.ofTokens_of_dottedName? several named, node]
    | none =>
      simp only [Checked.nameCall_eq, pure_bind]
      cases call : isCall true run with
      | true =>
        rw [if_pos rfl, Form.ofTokens_of_isCall call]
        rfl
      | false =>
        rw [if_neg Bool.false_ne_true, Form.ofTokens_of_unnamed several named call]
        rfl

/-! ### Calls -/

theorem compareTask_eq (param : ParamSpec) {t : Token} {rest : List Token} (value : Expr) :
    compareTask param (t :: rest) value = (compareArgument param t.place value).checked := by
  unfold compareTask compareArgument
  generalize param.expected = due
  generalize value.resultType = type
  cases due with
  | known expected =>
    cases type with
    | known found =>
      by_cases same : expected = found
      · simp only [if_pos same, Checked.checked_pure]
      · simp only [if_neg same]
        rfl
    | _ => rfl
  | _ => rfl

theorem argumentsTask_recalled (params : ParamList) {args : List (List Token)}
    (some : ∀ arg ∈ args, arg ≠ []) :
    argumentsTask a.recalled params args =
      (a.argumentNodes params (args.map Part.ofRun)).checked := by
  induction args generalizing params with
  | nil => cases params <;> rfl
  | cons arg args ih =>
    cases params with
    | nil =>
      obtain ⟨t, run, rfl⟩ := List.exists_cons_of_ne_nil (some arg (List.mem_cons_self ..))
      rfl
    | cons p params =>
      obtain ⟨here, below⟩ := List.forall_mem_cons.mp some
      obtain ⟨t, run, rfl⟩ := List.exists_cons_of_ne_nil here
      rw [argumentsTask, ih params below, List.map_cons, Part.ofRun, argumentNodes]
      simp only [recalled, answer, analyze, Checked.checked_bind, compareTask_eq, bind_assoc]
      rfl

theorem argumentRuns_recalled {β : Type} (name : String) (params : ParamList) (required : Nat)
    (paren : Token) (next : List Expr → Checked β) :
    (argumentRuns name params required paren >>= fun args =>
        (argumentsTask a.recalled params args).whole >>= next) =
      (checkArguments name params required paren.form.args paren.place).checked >>= fun _ =>
        (a.argumentNodes params paren.form.args).whole.checked >>= next := by
  unfold argumentRuns checkArguments
  rw [paren.form_args, anyMissing_map, List.length_map]
  cases missing : paren.arguments.any List.isEmpty with
  | true => rfl
  | false =>
    have some : ∀ arg ∈ paren.arguments, arg ≠ [] := by simpa using missing
    simp only [Bool.false_eq_true, if_false, bind_assoc, pure_bind,
      argumentsTask_recalled params some, Checked.checked_whole]

theorem index_last {run : List Token} {name : String} (named : dottedName? run = some name) :
    ∃ last, Checked.index run (run.length - 1) = pure last ∧ lastPlace? run = some last.place := by
  obtain rfl | ⟨front, last, rfl⟩ := run.eq_nil_or_concat
  · exact absurd rfl (of_dottedName?_eq_some named).1
  · have found := Checked.index_append front last []
    exact ⟨last, by simpa using found, by simp [lastPlace?]⟩

theorem calleeTask_recalled {head : List Token} {callee : String}
    (named : dottedName? head = some callee) (paren : Token) :
    a.calleeTask a.recalled head paren =
      (a.node (.call callee (lastPlace? head) paren.form.args paren.place)).checked := by
  obtain ⟨last, found, place⟩ := index_last named
  simp only [calleeTask, named, node, found, place, pure_bind]
  cases a.lookup callee with
  | none => rfl
  | some symbol =>
    cases symbol with
    | function name params returns span =>
      simp only [argumentRuns_recalled, Checked.checked_bind, Checked.checked_pure]
    | struct name qualified fields span =>
      simp only [argumentRuns_recalled, Checked.checked_bind, Checked.checked_pure]
    | var name ty span => rfl

theorem callTask_eq (ask : Task → Checked Expr) (run : List Token) :
    a.callTask ask run =
      match splitAtFirst Token.isParenGroup run with
      | none => Checked.fail .invalidForm (lastPlace? run)
      | some (_, _, next :: _) => Checked.fail .invalidForm next.place
      | some (head, paren, []) => a.calleeTask ask head paren := by
  unfold callTask
  rw [findIdx?_eq_splitAtFirst]
  cases cut : splitAtFirst Token.isParenGroup run with
  | none => rfl
  | some parts =>
    obtain ⟨head, paren, tail⟩ := parts
    obtain ⟨rfl, -, -⟩ := of_splitAtFirst_eq_some cut
    simp only [Option.map_some, Checked.slice_front, Checked.index_append, pure_bind]
    cases tail with
    | nil => simp
    | cons next tail => simp

theorem callTask_recalled (run : List Token) :
    a.callTask a.recalled run = (a.analyzeCall run).checked := by
  rw [callTask_eq, analyzeCall, Form.callOfTokens_eq]
  cases splitAtFirst Token.isParenGroup run with
  | none => rfl
  | some parts =>
    obtain ⟨head, paren, tail⟩ := parts
    cases tail with
    | cons next tail => rfl
    | nil =>
      cases named : dottedName? head with
      | none =>
        simp only [calleeTask, named]
        rfl
      | some callee => simp only [calleeTask_recalled named, named]

/-! ### Operations -/

theorem operandTask_recalled (run : List Token) :
    operandTask a.recalled run = (a.reader.operand id run).checked := by
  unfold operandTask Synthesizer.operand
  rw [List.map_id, Checked.nameCall_eq, pure_bind]
  by_cases single : run.length = 1 ∨ (dottedName? run).isSome
  · rw [if_pos single, if_pos single]
    rfl
  · rw [if_neg single, if_neg single]
    change _ = (if isCall true run then _ else _ : Analysis Expr).checked
    cases isCall true run <;> rfl

theorem pieceTask_recalled (piece : Piece Token) :
    a.pieceTask a.recalled piece = (a.pieceNode id a.reader piece).checked := by
  rw [pieceTask, operandTask_recalled, pieceNode, Checked.checked_bind]
  rfl

theorem piecesTask_recalled {β : Type} (rest : List ((BinaryOp × Token) × Piece Token))
    (next : List Expr → List (BinaryOp × Place) → Checked β) :
    (a.piecesTask a.recalled (rest.map Prod.snd) >>= fun values =>
        next values ((rest.map Prod.fst).map fun (op, t) => (op, t.place))) =
      (a.pieceNodes id a.reader rest).checked >>= fun nodes =>
        next (nodes.map fun x => x.2.2) (nodes.map fun x => (x.1, x.2.1)) := by
  induction rest generalizing next with
  | nil => rfl
  | cons x rest ih =>
    simp only [List.map_cons, piecesTask, pieceNodes, pieceTask_recalled, Checked.checked_bind,
      Checked.checked_pure, bind_assoc, pure_bind]
    refine congrArg (Bind.bind _) (funext fun value => ?_)
    exact ih fun values operators => next (value :: values) ((x.1.1, x.1.2.place) :: operators)

theorem assemblyTask_recalled (run : List Token) :
    a.assemblyTask a.recalled run =
      (a.node (Noted.operationForm (noteTokens run))).checked := by
  rw [node_operationForm_noteTokens, assemblyTask, assemble, Checked.cut_eq]
  cases Chain.split id run with
  | error t? => rfl
  | ok c =>
    simp only [Checked.ofSplit, List.nil_append, pure_bind, Chain.operands, Chain.operators,
      piecesTask, pieceTask_recalled, Checked.checked_bind, bind_assoc]
    refine congrArg (Bind.bind _) (funext fun head => ?_)
    rw [piecesTask_recalled c.rest fun values operators => a.climbAll (head :: values) operators]
    simp only [climbAll_eq]

/-- Whatever an analyzer is asked for, the analysis of the form gives what the procedure gives if
its calls are answered so. -/
theorem satisfies (a : Analyzer) : Procedure.Satisfies a.answer a.procedure := by
  intro task
  cases task with
  | expression expected? run => exact expressionTask_recalled expected? run
  | run run => exact runTask_recalled run
  | call run => exact callTask_recalled run
  | assembly run => exact assemblyTask_recalled run

end Analyzer

end ExprCheck
