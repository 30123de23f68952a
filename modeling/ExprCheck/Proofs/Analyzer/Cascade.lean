import ExprCheck.Proofs.Analyzer.Mismatches
import ExprCheck.Proofs.Form.Calls
/-! One error does not lead to another. An analysis goes on after an error only where a call
compares its arguments. Main statement: all errors of an analysis but the last one are mismatches of
arguments of calls in the run, so without a call there is at most one. -/
namespace ExprCheck

/-! ## Steps -/

namespace Analysis

variable {α β : Type} {M : Finding → Prop}

/-- The step goes on after errors of the class only: all errors that it logs belong to the class,
but perhaps the last one if it gives up. -/
def StopsOutside (M : Finding → Prop) (m : Analysis α) : Prop :=
  m.Ensures fun r new => (∀ f ∈ new.errors.dropLast, M f) ∧ (r ≠ none → ∀ f ∈ new.errors, M f)

theorem stopsOutside_pure (x : α) : (pure x : Analysis α).StopsOutside M :=
  ensures_pure ⟨List.forall_mem_nil _, fun _ => List.forall_mem_nil _⟩

theorem stopsOutside_fail (fault : Fault) (place? : Option Place) :
    (fail fault place? : Analysis α).StopsOutside M :=
  ensures_fail ⟨List.forall_mem_nil _, fun went => absurd rfl went⟩

theorem stopsOutside_warn (place? : Option Place) : (note .undetermined place?).StopsOutside M :=
  ensures_note ⟨List.forall_mem_nil _, fun _ => List.forall_mem_nil _⟩

theorem StopsOutside.bind_of_yields {m : Analysis α} {f : α → Analysis β} {P : α → Prop}
    (h : m.StopsOutside M) (made : m.Yields fun x _ => P x)
    (next : ∀ x, P x → (f x).StopsOutside M) : (m >>= f).StopsOutside M := by
  refine Ensures.bind (Ensures.and h made) ?_ ?_
  · exact fun _ told => ⟨told.1.1, fun went => absurd rfl went⟩
  rintro x before ⟨⟨-, went⟩, yields⟩
  refine (next x (yields x rfl)).mono fun r after told => ?_
  have inFront := went (by simp)
  rw [Log.errors_append]
  constructor
  · intro f mem
    rw [List.dropLast_append] at mem
    split at mem
    · exact inFront f (List.dropLast_subset _ mem)
    · exact (List.mem_append.mp mem).elim (inFront f) (told.1 f)
  · intro stays
    exact List.forall_mem_append.mpr ⟨inFront, told.2 stays⟩

theorem StopsOutside.bind {m : Analysis α} {f : α → Analysis β} (h : m.StopsOutside M)
    (next : ∀ x, (f x).StopsOutside M) : (m >>= f).StopsOutside M :=
  h.bind_of_yields (P := fun _ => True) (Ensures.mono h fun _ _ _ _ _ => trivial) fun x _ => next x

theorem StopsOutside.whole {m : Analysis α} (h : m.StopsOutside M) : m.whole.StopsOutside M :=
  Ensures.whole h (fun _ told => told) (fun _ _ told _ => ⟨told.1, fun went => absurd rfl went⟩)
    fun _ _ told _ => told

end Analysis

namespace Analyzer

open Analysis

variable {M : Finding → Prop}

theorem nameNode_stopsOutside (a : Analyzer) (text : String) (last? : Option Place) :
    (a.nameNode text last?).StopsOutside M := by
  unfold nameNode
  split
  · exact stopsOutside_pure _
  · exact stopsOutside_fail _ _

theorem conclude_stopsOutside (first? : Option Place) (expected? : Option Ty) (value : Expr) :
    (conclude first? expected? value).StopsOutside M := by
  unfold conclude
  split
  · split
    · exact stopsOutside_pure _
    · exact stopsOutside_fail _ _
  · exact (stopsOutside_warn _).bind fun _ => stopsOutside_pure _
  · exact stopsOutside_pure _

theorem applyUnary_stopsOutside (a : Analyzer) (op : UnaryOp) (place : Place) (operand : Expr) :
    (a.applyUnary op place operand).StopsOutside M := by
  unfold applyUnary
  split
  · split
    · exact stopsOutside_pure _
    · exact stopsOutside_fail _ _
  · exact stopsOutside_pure _

theorem applySigns_stopsOutside (a : Analyzer) (signs : List (UnaryOp × Place)) (value : Expr) :
    (a.applySigns signs value).StopsOutside M := by
  induction signs with
  | nil => exact stopsOutside_pure _
  | cons sign signs ih => exact ih.bind fun _ => a.applyUnary_stopsOutside _ _ _

theorem applyBinary_stopsOutside (a : Analyzer) (op : BinaryOp) (place : Place)
    (left right : Expr) : (a.applyBinary op place left right).StopsOutside M := by
  unfold applyBinary
  split
  · split
    · exact stopsOutside_pure _
    · exact stopsOutside_fail _ _
  · exact stopsOutside_pure _

theorem applyTree_stopsOutside (a : Analyzer) (tree : OpTree Expr) :
    (a.applyTree tree).StopsOutside M := by
  induction tree with
  | leaf value => exact stopsOutside_pure _
  | node op place left right ihLeft ihRight =>
    exact ihLeft.bind fun _ => ihRight.bind fun _ => a.applyBinary_stopsOutside _ _ _ _

theorem checkArguments_stopsOutside (name : String) (params : ParamList) (required : Nat)
    (args : List Part) (paren : Place) :
    (checkArguments name params required args paren).StopsOutside M := by
  unfold checkArguments checkCount
  split
  · exact stopsOutside_fail _ _
  split
  · exact stopsOutside_fail _ _
  split
  · exact stopsOutside_fail _ _
  · exact stopsOutside_pure _

theorem checkArguments_complete (name : String) (params : ParamList) (required : Nat)
    (args : List Part) (paren : Place) :
    (checkArguments name params required args paren).Yields fun _ _ => anyMissing args = false := by
  unfold checkArguments checkCount
  split
  · exact yields_fail
  rename_i complete
  split
  · exact yields_fail
  split
  · exact yields_fail
  · exact yields_pure (Bool.not_eq_true _ ▸ complete)

theorem compareArgument_stopsOutside {param : ParamSpec} {first : Place} {value : Expr}
    (tolerated : ∀ f, mismatch? param first value = some f → M f) :
    (compareArgument param first value).StopsOutside M := by
  refine (compareArgument_ensures param first value).mono ?_
  rintro _ _ ⟨-, rfl⟩
  have all : ∀ f ∈ Log.errors (mismatch? param first value).toList, M f :=
    fun f mem => tolerated f (Option.mem_toList.mp (List.mem_of_mem_filter mem))
  exact ⟨fun f mem => all f (List.dropLast_subset _ mem), fun _ => all⟩

/-! ## Forms -/

/-- The mismatches of the arguments of a call belong to the class. -/
def Tolerates (a : Analyzer) (M : Finding → Prop) (callee : String) (args : List Part) : Prop :=
  ∀ symbol params required, a.lookup callee = some symbol →
    symbol.signature? = some (params, required) → anyMissing args = false →
    ∀ p first form value f, (p, Part.run first form) ∈ params.zip args →
      (a.partNode first form []).1 = some value → mismatch? p.2 first value = some f → M f

theorem partNode_answers (a : Analyzer) (first : Place) (form : Form) :
    (a.partNode first form).Yields fun x _ => (a.partNode first form []).1 = some x := by
  have anyFault : Admits fun _ => True := fun _ _ => trivial
  have composed : Composed (fun _ => True) false (a.partNode first form) :=
    .bind (a.node_composed anyFault form (.inl trivial)) fun _ => conclude_composed anyFault ..
  exact composed.determined.answers

mutual

theorem node_stopsOutside (a : Analyzer) {form : Form} (h : form.AllCalls (a.Tolerates M)) :
    (a.node form).StopsOutside M := by
  cases form with
  | invalid at? => exact stopsOutside_fail _ _
  | literal value => exact stopsOutside_pure _
  | name text last? => exact a.nameNode_stopsOutside _ _
  | tuple items place => exact (itemNodes_stopsOutside a place h).bind fun _ => stopsOutside_pure _
  | empty bracket => cases bracket <;> exact stopsOutside_pure _
  | group bracket first inner =>
    have content : (a.node inner).StopsOutside M := node_stopsOutside a h
    cases bracket with
    | paren => exact content
    | square | brace =>
      cases inner with
      | tuple items place =>
        exact (itemNodes_stopsOutside a place h).bind fun _ => stopsOutside_pure _
      | _ => exact content.bind fun _ => stopsOutside_pure _
  | call callee last? args paren =>
    obtain ⟨tolerates, below⟩ := h
    have called {symbol : Symbol} {params : ParamList} {required : Nat}
        (found : a.lookup callee = some symbol)
        (takes : symbol.signature? = some (params, required)) (name : String)
        (make : List Expr → Expr) : StopsOutside M (do
          checkArguments name params required args paren
          return make (← (a.argumentNodes params args).whole)) := by
      -- The arguments are looked at only after none was found missing.
      refine (checkArguments_stopsOutside name params required args paren).bind_of_yields
        (checkArguments_complete name params required args paren) fun _ complete => ?_
      have tolerated := tolerates symbol params required found takes complete
      exact (argumentNodes_stopsOutside a below tolerated).whole.bind fun _ => stopsOutside_pure _
    unfold node
    split
    · rename_i found
      exact called found rfl _ _
    · rename_i found
      exact called found rfl _ _
    · exact stopsOutside_fail _ _
  | operation first rest =>
    exact (operandNode_stopsOutside a h.1).bind fun _ =>
      (operationNodes_stopsOutside a h.2).bind fun _ => a.applyTree_stopsOutside _
termination_by structural form

theorem itemNodes_stopsOutside (a : Analyzer) (place : Place) {items : List Part}
    (h : Part.AllCalls (a.Tolerates M) items) : (a.itemNodes place items).StopsOutside M := by
  cases items with
  | nil => exact stopsOutside_pure _
  | cons part rest =>
    cases part with
    | missing => exact stopsOutside_fail _ _
    | run first form =>
      exact (node_stopsOutside a h.1).bind fun _ => (conclude_stopsOutside _ _ _).bind fun _ =>
        (itemNodes_stopsOutside a place h.2).bind fun _ => stopsOutside_pure _
termination_by structural items

theorem argumentNodes_stopsOutside (a : Analyzer) {params : ParamList} {args : List Part}
    (h : Part.AllCalls (a.Tolerates M) args)
    (tolerated : ∀ p first form value f, (p, Part.run first form) ∈ params.zip args →
      (a.partNode first form []).1 = some value → mismatch? p.2 first value = some f → M f) :
    (a.argumentNodes params args).StopsOutside M := by
  cases args with
  | nil => cases params <;> exact stopsOutside_pure _
  | cons part rest =>
    cases params with
    | nil => exact stopsOutside_pure _
    | cons p params =>
      cases part with
      | missing => exact stopsOutside_pure _
      | run first form =>
        have value : (a.partNode first form).StopsOutside M :=
          (node_stopsOutside a h.1).bind fun _ => conclude_stopsOutside _ _ _
        have others : (a.argumentNodes params rest).StopsOutside M :=
          argumentNodes_stopsOutside a h.2 fun q first form value f mem =>
            tolerated q first form value f (List.mem_cons_of_mem _ mem)
        rw [argumentNodes_cons]
        -- Only the comparison logs an error and goes on.
        refine value.bind_of_yields (a.partNode_answers first form) fun x made => ?_
        refine (compareArgument_stopsOutside fun f noted => ?_).bind fun _ =>
          others.bind fun _ => stopsOutside_pure _
        exact tolerated p first form x f List.mem_cons_self made noted
termination_by structural args

theorem operandNode_stopsOutside (a : Analyzer) {operand : Operand}
    (h : operand.AllCalls (a.Tolerates M)) : (a.operandNode operand).StopsOutside M := by
  cases operand with
  | mk signs form => exact (node_stopsOutside a h).bind fun _ => a.applySigns_stopsOutside _ _
termination_by structural operand

theorem operationNodes_stopsOutside (a : Analyzer) {operations : List Operation}
    (h : Operation.AllCalls (a.Tolerates M) operations) :
    (a.operationNodes operations).StopsOutside M := by
  cases operations with
  | nil => exact stopsOutside_pure _
  | cons operation rest =>
    cases operation with
    | mk op place operand =>
      exact (operandNode_stopsOutside a h.1).bind fun _ =>
        (operationNodes_stopsOutside a h.2).bind fun _ => stopsOutside_pure _
termination_by structural operations

end

/-! ## Runs -/

/-- The finding is that an argument of a call in the run is not of the type of its parameter. -/
def IsMismatchIn (a : Analyzer) (run : List Token) (f : Finding) : Prop :=
  ∃ call params required args, Occurs call run ∧ CallOf a.lookup call params required args ∧
    ∃ p arg value, (p, arg) ∈ params.zip args ∧ (a.analyze none arg []).1 = some value ∧
      mismatch? p.2 (firstPlace? arg) value = some f

theorem itemParts_complete {items : List (List Token)}
    (complete : anyMissing (itemParts items) = false) :
    ∃ args, (∀ arg ∈ args, arg ≠ []) ∧ (items = args ∨ items = args ++ [[]]) := by
  induction items with
  | nil => exact ⟨[], nofun, .inl rfl⟩
  | cons item rest ih =>
    cases item with
    | nil =>
      cases rest with
      | nil => exact ⟨[], nofun, .inr rfl⟩
      | cons next rest => cases complete
    | cons t run =>
      obtain ⟨args, some, whole⟩ := ih complete
      refine ⟨(t :: run) :: args, List.forall_mem_cons.mpr ⟨List.cons_ne_nil _ _, some⟩, ?_⟩
      rcases whole with rfl | rfl
      · exact .inl rfl
      · exact .inr rfl

theorem exists_argumentList {inner : List Token} {place : Place}
    (complete : anyMissing (Token.group .paren inner place).form.args = false) :
    ∃ args, ArgumentList inner args := by
  by_cases empty : inner = []
  · exact ⟨[], empty ▸ .none⟩
  by_cases tuple : ∃ items place, inner = [.tuple items place]
  · obtain ⟨items, place, rfl⟩ := tuple
    obtain ⟨args, some, rfl | rfl⟩ := itemParts_complete complete
    · exact ⟨_, .several some⟩
    · exact ⟨_, .trailing some⟩
  · exact ⟨_, .single empty fun items place same => tuple ⟨items, place, same⟩⟩

theorem callsIn_tolerates (a : Analyzer) (run : List Token) :
    CallsIn (a.Tolerates (a.IsMismatchIn run)) run := by
  intro head inner place callee occurs named symbol params required found takes complete
    p first form value f among made noted
  obtain ⟨args, listed⟩ := exists_argumentList complete
  rw [listed.form_args, List.zip_map_right] at among
  obtain ⟨⟨_, arg⟩, mem, same⟩ := List.mem_map.mp among
  cases arg with
  | nil => cases same
  | cons t rest =>
    cases same
    exact ⟨_, params, required, args, occurs, .intro named found takes listed, _, t :: rest, value,
      mem, made, noted⟩

theorem analyze_stopsOutside (a : Analyzer) (expected? : Option Ty) (run : List Token) :
    (a.analyze expected? run).StopsOutside (a.IsMismatchIn run) :=
  (node_stopsOutside a (Form.allCalls_ofTokens (a.callsIn_tolerates run))).bind fun _ =>
    conclude_stopsOutside _ _ _

theorem IsMismatchIn.isCall {a : Analyzer} {run : List Token} {f : Finding}
    (h : a.IsMismatchIn run f) : ∃ call, Occurs call run ∧ isCall true call = true := by
  obtain ⟨call, params, required, args, occurs, calls, -⟩ := h
  obtain ⟨named, -, -, -⟩ := calls
  rename_i head inner callee symbol place
  have outside : ∀ t ∈ head, t.isParenGroup = false := fun t mem =>
    ((of_dottedName?_eq_some named).2 t mem).2
  refine ⟨_, occurs, ?_⟩
  rw [ExprCheck.isCall, splitAtFirst_append_cons [] outside rfl]
  simp [named]

/-- Whatever was logged before, all errors that an analysis adds but the last one are mismatches of
arguments of calls in the run. So it adds at most one for a run without a call at any depth. -/
theorem analyze_cascades_only_mismatches (a : Analyzer) (expected? : Option Ty) (run : List Token)
    (log : Log) :
    ∃ new, (a.analyze expected? run log).2 = log ++ new ∧
      (∀ f ∈ new.errors.dropLast, a.IsMismatchIn run f) ∧
      ((∀ piece, Occurs piece run → isCall true piece = false) → new.errors.length ≤ 1) := by
  obtain ⟨new, appended, before, -⟩ := a.analyze_stopsOutside expected? run log
  refine ⟨new, appended, before, fun uncalled => ?_⟩
  have none : new.errors.dropLast = [] := by
    refine List.eq_nil_iff_forall_not_mem.mpr fun f mem => ?_
    obtain ⟨call, occurs, isCall⟩ := (before f mem).isCall
    cases (uncalled call occurs).symm.trans isCall
  have size : new.errors.dropLast.length = new.errors.length - 1 := List.length_dropLast
  rw [none, List.length_nil] at size
  omega

theorem exists_paren_of_isCall {run : List Token} (call : isCall true run = true) :
    ∃ t ∈ run, t.isParenGroup = true := by
  unfold isCall at call
  split at call
  · cases call
  · rename_i found
    obtain ⟨rfl, isParen, -⟩ := of_splitAtFirst_eq_some found
    exact ⟨_, by simp, isParen⟩

/- Nothing is defined but `f`: there are two errors in `f('a', y)`, and one in `x + y`. -/
theorem analyze_cascades_only_mismatches_of_f :
    let p : Place := ⟨⟨2, 5⟩, 1⟩
    let q : Place := ⟨⟨7, 8⟩, 1⟩
    let x : ParamSpec := ⟨some (.int .i32), none, ⟨0, 1⟩⟩
    let f : Symbol := .function "f" [("x", x), ("y", x)] .undetermined ⟨0, 1⟩
    let a : Analyzer := ⟨fun name => if name = "f" then some f else none, false⟩
    let call : List Token := nameTokens "f" ++
      [.group .paren [.tuple [[.leaf (.str "'a'") p], [.leaf (.name "y") q]] p] p]
    let sum : List Token := [.leaf (.name "x") p, .leaf (.op "+") p, .leaf (.name "y") q]
    let mismatch : Finding := ⟨.fault (.typeMismatch (.int .i32) .str), p⟩
    ((a.analyze none call []).2 = [mismatch, ⟨.fault (.undefinedName "y"), q⟩] ∧
      a.IsMismatchIn call mismatch) ∧
    (∀ piece, Occurs piece sum → isCall true piece = false) ∧
      (a.analyze none sum []).2.errors.length ≤ 1 := by
  intro p q x f a call sum mismatch
  have uncalled : ∀ piece, Occurs piece sum → isCall true piece = false := by
    intro piece occurs
    refine Bool.eq_false_iff.mpr fun called => ?_
    cases occurs with
    | here stretch =>
      obtain ⟨t, mem, isParen⟩ := exists_paren_of_isCall called
      have among := stretch.subset mem
      simp only [sum, List.mem_cons, List.not_mem_nil, or_false] at among
      rcases among with rfl | rfl | rfl <;> cases isParen
    | item among => simp [sum] at among
    | inner among => simp [sum] at among
  have logged : (a.analyze none call []).2 = [mismatch, ⟨.fault (.undefinedName "y"), q⟩] := by
    decide +kernel
  obtain ⟨new, appended, before, -⟩ := analyze_cascades_only_mismatches a none call []
  obtain ⟨new', appended', -, few⟩ := analyze_cascades_only_mismatches a none sum []
  rw [List.nil_append] at appended appended'
  refine ⟨⟨logged, before mismatch ?_⟩, uncalled, appended' ▸ few uncalled⟩
  rw [← appended, logged]
  exact List.mem_cons_self

end Analyzer

end ExprCheck
