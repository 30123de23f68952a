import ExprCheck.Proofs.Leaves
import ExprCheck.Proofs.OpTree
import ExprCheck.Proofs.Typing
/-! What an analysis makes. Main statement: an analysis of a form has a result only if the form is
that of a value, and the result is derived by the typing rules from the literals of the form. A
mismatching argument does not end the analysis of a call at once, so the arguments agree only if
nothing was logged. -/
namespace ExprCheck

theorem Expr.resultType_ne_own (e : Expr) : e.resultType ≠ .own := by
  unfold resultType
  split
  · cases e <;> simp [ownType]
  · assumption

namespace Analyzer

open Analysis

variable {a : Analyzer} {source : List Literal}

theorem nameNode_yields (text : String) (last? : Option Place) :
    (a.nameNode text last?).Yields fun e _ =>
      (a.lookup text).isSome ∧ a.Builds source e := by
  unfold nameNode
  split
  · rename_i found
    exact yields_pure ⟨found ▸ rfl, .name found⟩
  · exact yields_fail

theorem conclude_yields (first? : Option Place) (expected? : Option Ty) (value : Expr) :
    (conclude first? expected? value).Yields fun e _ => e = value ∧
      ∀ ty, expected? = some ty → e.resultType = .known ty ∨ e.resultType = .undetermined := by
  unfold conclude
  split
  · rename_i found expected known
    split
    · rename_i same
      refine yields_pure ⟨rfl, fun ty h => .inl ?_⟩
      cases h
      rw [known, same]
    · exact yields_fail
  · rename_i unknown
    exact ensures_note (R := fun _ _ => True) trivial |>.bind (by simp) fun _ _ _ =>
      yields_pure ⟨rfl, fun _ _ => .inr unknown⟩
  · rename_i others
    refine yields_pure ⟨rfl, fun ty h => ?_⟩
    cases h
    cases type : value.resultType with
    | known found => exact absurd type (others found ty · rfl)
    | own => exact absurd type value.resultType_ne_own
    | undetermined => exact .inr rfl

theorem applyUnary_yields (op : UnaryOp) (place : Place) {operand : Expr}
    (built : a.Builds source operand) :
    (a.applyUnary op place operand).Yields fun e _ => a.Builds source e := by
  unfold applyUnary
  split
  · rename_i ty known
    split
    · rename_i result found
      exact yields_pure (.unary (known ▸ ⟨result, found, rfl⟩) built)
    · exact yields_fail
  · rename_i unknown
    refine yields_pure (.unary ?_ built)
    unfold UnaryOp.Gives
    split
    · rename_i known
      exact absurd known (unknown _)
    · rfl

theorem applySigns_yields (signs : List (UnaryOp × Place)) {value : Expr}
    (built : a.Builds source value) :
    (a.applySigns signs value).Yields fun e _ => a.Builds source e := by
  induction signs with
  | nil => exact yields_pure built
  | cons sign signs ih => exact ih.bind fun _ _ operand => applyUnary_yields _ _ operand

theorem applyBinary_yields (op : BinaryOp) (place : Place) {left right : Expr}
    (first : a.Builds source left) (second : a.Builds source right) :
    (a.applyBinary op place left right).Yields fun e _ => a.Builds source e := by
  unfold applyBinary
  split
  · rename_i l r knownLeft knownRight
    split
    · rename_i result found
      have gives : op.Gives left.resultType right.resultType (.known result) := by
        rw [knownLeft, knownRight]
        exact ⟨result, found, rfl⟩
      exact yields_pure (.binary gives first second)
    · exact yields_fail
  · rename_i unknown
    refine yields_pure (.binary ?_ first second)
    unfold BinaryOp.Gives
    split
    · rename_i knownLeft knownRight
      exact absurd knownRight (unknown _ _ knownLeft)
    · rfl

theorem applyTree_yields {tree : OpTree Expr} (built : ∀ e ∈ tree.leaves, a.Builds source e) :
    (a.applyTree tree).Yields fun e _ => a.Builds source e := by
  induction tree with
  | leaf value => exact yields_pure (built value (by simp [OpTree.leaves]))
  | node op place left right ihLeft ihRight =>
    obtain ⟨builtLeft, builtRight⟩ := List.forall_mem_append.mp built
    exact (ihLeft builtLeft).bind fun _ _ first => (ihRight builtRight).bind fun _ _ second =>
      applyBinary_yields _ _ first second

theorem checkArguments_yields (name : String) (params : ParamList) (required : Nat)
    (args : List Part) (paren : Place) :
    (checkArguments name params required args paren).Yields fun _ _ =>
      anyMissing args = false ∧ args.length ≤ params.length ∧ required ≤ args.length := by
  unfold checkArguments checkCount
  split
  · exact yields_fail
  · rename_i complete
    split
    · exact yields_fail
    · rename_i notMore
      split
      · exact yields_fail
      · rename_i notFewer
        exact yields_pure ⟨by simpa using complete, by omega, by omega⟩

theorem compareArgument_yields (param : ParamSpec) (first : Place) (value : Expr) :
    (compareArgument param first value).Yields fun _ new => new.Clean →
      ∀ expected found, param.expected = .known expected → value.resultType = .known found →
        found = expected := by
  unfold compareArgument
  split
  · rename_i expected found knownParam knownValue
    split
    · rename_i same
      refine yields_pure fun _ expected' found' h h' => ?_
      cases knownParam.symm.trans h
      cases knownValue.symm.trans h'
      exact same.symm
    · refine ensures_note fun _ _ clean => ?_
      cases clean _ (List.mem_singleton.mpr rfl)
  · rename_i unknown
    exact yields_pure fun _ expected found h h' => absurd h' (unknown expected found h)

theorem agreesWith_cons {param : String × ParamSpec} {params : ParamList} {value : Expr}
    {values : List Expr} (first : ∀ expected found, param.2.expected = .known expected →
      value.resultType = .known found → found = expected)
    (rest : AgreesWith params values) : AgreesWith (param :: params) (value :: values) := by
  intro x hx
  rcases List.mem_cons.mp hx with rfl | hx
  · exact first
  · exact rest x hx

/-- The values are made of the arguments, and they agree with the parameters if `compared`. -/
structure Passes (a : Analyzer) (source : List Literal) (params : ParamList) (args : List Part)
    (compared : Prop) (values : List Expr) : Prop where
  isValue : Part.AllValues a.lookup args
  length : values.length = args.length
  built : ∀ e ∈ values, a.Builds source e
  agrees : compared → AgreesWith params values

theorem passArguments_yields {name : String} {params : ParamList} {required : Nat}
    {args : List Part} {paren : Place} {arguments : Analysis (List Expr)}
    {next : List Expr → Analysis Expr} {Q : Expr → Prop}
    (made : anyMissing args = false → args.length ≤ params.length →
      arguments.Yields fun values new => a.Passes source params args new.Clean values)
    (used : ∀ values, required ≤ values.length → values.length ≤ params.length →
      a.Passes source params args True values → (next values).Yields fun e _ => Q e) :
    (checkArguments name params required args paren >>= fun _ =>
      arguments.whole >>= next).Yields fun e _ => Q e := by
  refine (checkArguments_yields name params required args paren).bind fun _ _ counted => ?_
  obtain ⟨complete, fits, enough⟩ := counted
  have checked : arguments.whole.Yields fun values _ => a.Passes source params args True values :=
    (made complete fits).whole fun values _ parts clean =>
      ⟨parts.isValue, parts.length, parts.built, fun _ => parts.agrees clean⟩
  refine checked.bind fun values _ parts => used values ?_ ?_ parts
  · exact parts.length ▸ enough
  · exact parts.length ▸ fits

mutual

theorem node_yields (form : Form) (known : form.literals ⊆ source) :
    (a.node form).Yields fun e _ => form.IsValue a.lookup ∧ a.Builds source e := by
  cases form with
  | invalid at? => exact yields_fail
  | literal value => exact yields_pure ⟨trivial, .literal (known (by simp [Form.literals]))⟩
  | name text last? => exact nameNode_yields text last?
  | tuple items place =>
    exact (itemNodes_yields place items known).bind fun _ _ parts =>
      yields_pure ⟨parts.1, .collection parts.2⟩
  | empty bracket =>
    cases bracket with
    | paren | square => exact yields_pure ⟨trivial, .collection (by simp)⟩
    | brace => exact yields_pure ⟨trivial, .dict⟩
  | group bracket first inner =>
    have content : (a.node inner).Yields fun e _ => inner.IsValue a.lookup ∧ a.Builds source e :=
      node_yields inner known
    cases bracket with
    | paren => exact content
    | square | brace =>
      cases inner with
      | tuple items place =>
        exact (itemNodes_yields place items known).bind fun _ _ parts =>
          yields_pure ⟨parts.1, .collection parts.2⟩
      | _ =>
        exact content.bind fun _ _ part =>
          yields_pure ⟨part.1, .collection (List.forall_mem_singleton.mpr part.2)⟩
  | call callee last? args paren =>
    unfold node
    split
    · rename_i name params returns span found
      apply passArguments_yields fun complete fits =>
        argumentNodes_yields params args complete fits known
      intro values enough fits parts
      exact yields_pure ⟨parts.isValue, .call found enough fits (parts.agrees trivial) parts.built⟩
    · rename_i name qualified fields span found
      apply passArguments_yields fun complete fits =>
        argumentNodes_yields fields args complete fits known
      intro values enough fits parts
      have complete : values.length = fields.length := Nat.le_antisymm fits enough
      exact yields_pure ⟨parts.isValue, .init found complete (parts.agrees trivial) parts.built⟩
    · exact yields_fail
  | operation first rest =>
    obtain ⟨knownFirst, knownRest⟩ := List.append_subset.mp known
    refine (operandNode_yields first knownFirst).bind fun head _ builtHead => ?_
    refine (operationNodes_yields rest knownRest).bind fun tail _ builtTail => ?_
    have leaves : ∀ e ∈ (OpTree.ofChain head tail).leaves, a.Builds source e := by
      rw [OpTree.leaves_ofChain]
      exact List.forall_mem_cons.mpr ⟨builtHead.2, builtTail.2⟩
    exact (applyTree_yields leaves).mono fun _ _ built e same =>
      ⟨⟨builtHead.1, builtTail.1⟩, built e same⟩
termination_by structural form

theorem itemNodes_yields (place : Place) (items : List Part)
    (known : Part.literals items ⊆ source) :
    (a.itemNodes place items).Yields fun values _ =>
      Part.AllValues a.lookup items ∧ ∀ e ∈ values, a.Builds source e := by
  cases items with
  | nil => exact yields_pure ⟨trivial, by simp⟩
  | cons part rest =>
    cases part with
    | missing => exact yields_fail
    | run first form =>
      obtain ⟨knownHere, knownRest⟩ := List.append_subset.mp known
      refine (node_yields form knownHere).bind fun value _ built => ?_
      refine (conclude_yields first none value).bind fun value' _ settled => ?_
      refine (itemNodes_yields place rest knownRest).bind fun values _ parts => ?_
      refine yields_pure ⟨⟨built.1, parts.1⟩, List.forall_mem_cons.mpr ⟨?_, parts.2⟩⟩
      exact settled.1 ▸ built.2
termination_by structural items

theorem argumentNodes_yields (params : ParamList) (args : List Part)
    (complete : anyMissing args = false) (fits : args.length ≤ params.length)
    (known : Part.literals args ⊆ source) :
    (a.argumentNodes params args).Yields fun values new =>
      a.Passes source params args new.Clean values := by
  cases args with
  | nil => cases params <;> exact yields_pure ⟨trivial, rfl, by simp, by simp [AgreesWith]⟩
  | cons part rest =>
    cases params with
    | nil => simp at fits
    | cons param params =>
      cases part with
      | missing => cases complete
      | run first form =>
        obtain ⟨knownHere, knownRest⟩ := List.append_subset.mp known
        refine (node_yields form knownHere).bind fun value _ built => ?_
        refine (conclude_yields first none value).bind fun value' _ settled => ?_
        refine (compareArgument_yields param.2 first value').bind fun _ _ compared => ?_
        refine (argumentNodes_yields params rest complete (Nat.le_of_succ_le_succ fits)
          knownRest).bind fun values _ parts => ?_
        refine yields_pure ⟨⟨built.1, parts.isValue⟩, congrArg Nat.succ parts.length, ?_, ?_⟩
        · exact List.forall_mem_cons.mpr ⟨settled.1 ▸ built.2, parts.built⟩
        · intro clean
          simp only [Log.clean_append] at clean
          exact agreesWith_cons (compared clean.2.2.1) (parts.agrees clean.2.2.2.1)
termination_by structural args

theorem operandNode_yields (operand : Operand) (known : operand.literals ⊆ source) :
    (a.operandNode operand).Yields fun e _ =>
      operand.IsValue a.lookup ∧ a.Builds source e := by
  cases operand with
  | mk signs form =>
    refine (node_yields form known).bind fun value _ built => ?_
    exact (applySigns_yields _ built.2).mono fun _ _ signed e same => ⟨built.1, signed e same⟩
termination_by structural operand

theorem operationNodes_yields (operations : List Operation)
    (known : Operation.literals operations ⊆ source) :
    (a.operationNodes operations).Yields fun values _ =>
      Operation.AllValues a.lookup operations ∧
        ∀ e ∈ values.map (·.2.2), a.Builds source e := by
  cases operations with
  | nil => exact yields_pure ⟨trivial, by simp⟩
  | cons operation rest =>
    cases operation with
    | mk op place operand =>
      obtain ⟨knownHere, knownRest⟩ := List.append_subset.mp known
      refine (operandNode_yields operand knownHere).bind fun value _ built => ?_
      refine (operationNodes_yields rest knownRest).bind fun values _ parts => ?_
      exact yields_pure ⟨⟨built.1, parts.1⟩, List.forall_mem_cons.mpr ⟨built.2, parts.2⟩⟩
termination_by structural operations

end

/-- An analysis of a run derives its result from the literals of the run. -/
theorem analyze_yields (expected? : Option Ty) (run : List Token) :
    (a.analyze expected? run).Yields fun e _ =>
      (Form.ofTokens run).IsValue a.lookup ∧ a.Builds (runLiterals run) e ∧
        ∀ ty, expected? = some ty → e.resultType = .known ty ∨ e.resultType = .undetermined := by
  refine (node_yields _ (Form.literals_ofTokens run)).bind fun value _ built => ?_
  refine (conclude_yields (firstPlace? run) expected? value).mono fun _ _ settled e same => ?_
  obtain ⟨rfl, typed⟩ := settled e same
  exact ⟨built.1, built.2, typed⟩

end Analyzer

end ExprCheck
