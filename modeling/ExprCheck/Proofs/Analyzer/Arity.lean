import Mathlib.Data.List.Basic
import ExprCheck.Proofs.Prelude.Lookup
import ExprCheck.Proofs.Print
/-! Counting the arguments of calls. A call counts its arguments against the leading parameters
without a default value. In a prelude no parameter without one stands behind one with one, so these
are all that must be given. Main statement: a call of a function or of a structure gets past the
count exactly if the declaration allows its number of arguments, and otherwise the parameters are
named that it leaves out. -/
namespace ExprCheck

/-! ## Parameters -/

theorem exists_needed_append {ps : List Param}
    (ordered : ps.Pairwise fun p q => p.default?.isSome → q.default?.isSome) :
    ∃ needed optional, ps = needed ++ optional ∧ (∀ p ∈ needed, p.default?.isNone) ∧
      ∀ p ∈ optional, p.default?.isNone = false := by
  induction ps with
  | nil => exact ⟨[], [], rfl, nofun, nofun⟩
  | cons p rest ih =>
    obtain ⟨behind, below⟩ := List.pairwise_cons.mp ordered
    cases given : p.default? with
    | none =>
      obtain ⟨needed, optional, rfl, must, may⟩ := ih below
      exact ⟨p :: needed, optional, rfl, List.forall_mem_cons.mpr ⟨by simp [given], must⟩, may⟩
    | some value =>
      refine ⟨[], p :: rest, rfl, nofun, List.forall_mem_cons.mpr ⟨by simp [given], ?_⟩⟩
      intro q mem
      exact Option.isNone_eq_false_iff.mpr (behind q mem (by simp [given]))

theorem names_paramList (find : String → Option Ty) (ps : List Param) :
    (paramList find ps).names = ps.map Param.name := by
  simp [paramList, ParamList.names]

/-- The leading parameters without a default value are those in front of the others. -/
theorem required_paramList (find : String → Option Ty) {needed optional : List Param}
    (must : ∀ p ∈ needed, p.default?.isNone) (may : ∀ p ∈ optional, p.default?.isNone = false) :
    (paramList find (needed ++ optional)).required = needed.length := by
  have front : ∀ x ∈ paramList find needed, x.2.default?.isNone := by
    refine List.forall_mem_map.mpr fun p mem => ?_
    simpa [Param.spec] using must p mem
  have back : (paramList find optional).takeWhile (fun x => x.2.default?.isNone) = [] := by
    cases optional with
    | nil => rfl
    | cons p rest =>
      have given := Option.isNone_eq_false_iff.mp (may p List.mem_cons_self)
      have stops : ¬(p.spec find).default?.isNone := by
        simpa [Param.spec, ← Option.isSome_iff_ne_none] using given
      exact List.takeWhile_cons_of_neg stops
  rw [paramList, List.map_append, ParamList.required, ← paramList, ← paramList,
    List.takeWhile_append_of_pos front, back, List.append_nil, paramList, List.length_map]

namespace Analyzer

/-! ## Counting -/

/-- What a check of the number of arguments does, against parameters of which those that are
`needed` must be given. -/
structure CountsBy (needed : Param → Bool) (check : Analysis Unit) (name : String)
    (ps : List Param) (given : Nat) (paren : Place) : Prop where
  passes : check = pure () ↔ ps.countP needed ≤ given ∧ given ≤ ps.length
  unfilled : check = pure () → ∀ p ∈ ps.drop given, needed p = false
  few : given < ps.countP needed → check =
    .fail (.missingArguments name (((ps.drop given).filter needed).map Param.name)) paren
  many : ps.length < given → check = .fail (.tooManyArguments name ps.length given) paren

theorem pure_ne_fail (fault : Fault) (place? : Option Place) :
    (pure () : Analysis Unit) ≠ .fail fault place? := by
  intro same
  cases congrFun same []

theorem countsBy_of_append (needed : Param → Bool) (name : String) (find : String → Option Ty)
    {front back : List Param} (must : ∀ p ∈ front, needed p) (may : ∀ p ∈ back, needed p = false)
    {parts : List Part} (complete : anyMissing parts = false) (paren : Place) :
    CountsBy needed
      (checkArguments name (paramList find (front ++ back)) front.length parts paren) name
      (front ++ back) parts.length paren := by
  have count : (front ++ back).countP needed = front.length := by
    rw [List.countP_append, List.countP_eq_length.mpr must,
      List.countP_eq_zero.mpr fun p mem => by simp [may p mem], Nat.add_zero]
  have params : (paramList find (front ++ back)).length = (front ++ back).length :=
    List.length_map ..
  have behind : ∀ p ∈ back.drop (parts.length - front.length), needed p = false :=
    fun p mem => may p (List.mem_of_mem_drop mem)
  have few (less : parts.length < front.length) :
      checkArguments name (paramList find (front ++ back)) front.length parts paren =
        .fail (.missingArguments name ((((front ++ back).drop parts.length).filter needed).map
          Param.name)) paren := by
    have notMore : ¬(front ++ back).length < parts.length := by
      rw [List.length_append]
      omega
    -- What is missing and must be given stands in front.
    have left : ((front ++ back).drop parts.length).filter needed = front.drop parts.length := by
      rw [List.drop_append, List.filter_append,
        List.filter_eq_self.mpr fun p mem => must p (List.mem_of_mem_drop mem),
        List.filter_eq_nil_iff.mpr fun p mem => by simp [behind p mem], List.append_nil]
    have listed : ((paramList find (front ++ back)).names.drop parts.length).take
        (front.length - parts.length) = (front.drop parts.length).map Param.name := by
      rw [names_paramList, ← List.map_drop, ← List.map_take, List.drop_append,
        List.take_append_of_le_length (by simp), List.take_of_length_le (by simp)]
    rw [left, checkArguments, complete, if_neg Bool.false_ne_true, checkCount, params,
      if_neg notMore, if_pos less, listed]
  have many (more : (front ++ back).length < parts.length) :
      checkArguments name (paramList find (front ++ back)) front.length parts paren =
        .fail (.tooManyArguments name (front ++ back).length parts.length) paren := by
    rw [checkArguments, complete, if_neg Bool.false_ne_true, checkCount, params, if_pos more]
  have fits : checkArguments name (paramList find (front ++ back)) front.length parts paren =
      pure () ↔ front.length ≤ parts.length ∧ parts.length ≤ (front ++ back).length := by
    constructor
    · intro passes
      by_contra outside
      by_cases less : parts.length < front.length
      · exact pure_ne_fail _ _ (passes.symm.trans (few less))
      · exact pure_ne_fail _ _ (passes.symm.trans (many (by omega)))
    · rintro ⟨enough, notMore⟩
      rw [checkArguments, complete, if_neg Bool.false_ne_true, checkCount, params,
        if_neg (by omega), if_neg (by omega)]
  refine ⟨count ▸ fits, fun passes p mem => ?_, fun less => few (count ▸ less), many⟩
  have enough := (fits.mp passes).1
  rw [List.drop_append, List.drop_eq_nil_of_le enough, List.nil_append] at mem
  exact behind p mem

end Analyzer

/-! ## Argument lists -/

/-- The content of the parentheses of a call, none of whose arguments is empty. A comma may stand
behind the last one. -/
inductive ArgumentList : List Token → List (List Token) → Prop
  | none : ArgumentList [] []
  | single {run : List Token} (some : run ≠ [])
      (other : ∀ items place, run ≠ [.tuple items place]) : ArgumentList run [run]
  | several {args : List (List Token)} {place : Place} (some : ∀ arg ∈ args, arg ≠ []) :
      ArgumentList [.tuple args place] args
  | trailing {args : List (List Token)} {place : Place} (some : ∀ arg ∈ args, arg ≠ []) :
      ArgumentList [.tuple (args ++ [[]]) place] args

def Part.ofRun : List Token → Part
  | [] => .missing
  | t :: rest => .run t.place (.ofTokens (t :: rest))

theorem itemParts_append_of_ne_nil {args : List (List Token)} (some : ∀ arg ∈ args, arg ≠ [])
    (rest : List (List Token)) :
    itemParts (args ++ rest) = args.map Part.ofRun ++ itemParts rest := by
  induction args with
  | nil => rfl
  | cons arg args ih =>
    obtain ⟨here, below⟩ := List.forall_mem_cons.mp some
    cases arg with
    | nil => exact absurd rfl here
    | cons t run => exact congrArg (List.cons _) (ih below)

theorem anyMissing_map_ofRun {args : List (List Token)} (some : ∀ arg ∈ args, arg ≠ []) :
    Analyzer.anyMissing (args.map Part.ofRun) = false := by
  induction args with
  | nil => rfl
  | cons arg args ih =>
    obtain ⟨here, below⟩ := List.forall_mem_cons.mp some
    cases arg with
    | nil => exact absurd rfl here
    | cons t run => exact ih below

namespace ArgumentList

variable {inner : List Token} {args : List (List Token)}

theorem forall_ne_nil (h : ArgumentList inner args) : ∀ arg ∈ args, arg ≠ [] := by
  cases h with
  | none => exact nofun
  | single some other => exact List.forall_mem_singleton.mpr some
  | several some | trailing some => exact some

theorem form_args (h : ArgumentList inner args) (place : Place) :
    (Token.group .paren inner place).form.args = args.map Part.ofRun := by
  cases h with
  | none => rfl
  | single some other =>
    obtain ⟨first, starts, read⟩ := Form.args_group some other place
    obtain ⟨t, rest, rfl⟩ := List.exists_cons_of_ne_nil some
    cases starts
    exact read
  | several some =>
    have items := itemParts_append_of_ne_nil some []
    rw [List.append_nil] at items
    exact items.trans (List.append_nil _)
  | trailing some =>
    exact (itemParts_append_of_ne_nil some [[]]).trans (List.append_nil _)

end ArgumentList

theorem Form.callOfTokens_call {head : List Token} {callee : String}
    (named : dottedName? head = some callee) (inner : List Token) (place : Place) :
    Form.callOfTokens (head ++ [.group .paren inner place]) =
      Form.ofTokens (head ++ [.group .paren inner place]) := by
  have outside : ∀ n ∈ noteTokens head, n.token.isParenGroup = false := by
    intro n mem
    have among : n.token ∈ Noted.tokens (noteTokens head) := List.mem_map_of_mem mem
    rw [Grammar.tokens_noteTokens] at among
    exact ((of_dottedName?_eq_some named).2 n.token among).2
  rw [Form.ofTokens_call named, Form.callOfTokens, Grammar.noteTokens_append]
  unfold Noted.callForm
  rw [show noteTokens [.group .paren inner place] =
    [⟨.group .paren inner place, (Token.group .paren inner place).form⟩] from rfl,
    splitAtFirst_append_cons [] outside rfl]
  simp only [Grammar.tokens_noteTokens, named]
  rfl

namespace Analyzer

/-- A call is analyzed by the check, and after it by its arguments. -/
def ChecksFirst (a : Analyzer) (call : List Token) (check : Analysis Unit) (params : ParamList)
    (parts : List Part) : Prop :=
  ∃ make : List Expr → Expr, a.node (.ofTokens call) = do
    check
    return make (← (a.argumentNodes params parts).whole)

theorem checksFirst_function {a : Analyzer} {head inner : List Token} {args : List (List Token)}
    {callee name : String} {params : ParamList} {returns : ResultType} {span : Span}
    (named : dottedName? head = some callee)
    (found : a.lookup callee = some (.function name params returns span))
    (listed : ArgumentList inner args) (place : Place) :
    a.ChecksFirst (head ++ [.group .paren inner place])
      (checkArguments name params params.required (args.map Part.ofRun) place) params
      (args.map Part.ofRun) := by
  refine ⟨fun values => .mkCall a.track callee values returns, ?_⟩
  rw [Form.ofTokens_call named, listed.form_args, node, found]

theorem checksFirst_struct {a : Analyzer} {head inner : List Token} {args : List (List Token)}
    {callee name qualified : String} {fields : ParamList} {span : Span}
    (named : dottedName? head = some callee)
    (found : a.lookup callee = some (.struct name qualified fields span))
    (listed : ArgumentList inner args) (place : Place) :
    a.ChecksFirst (head ++ [.group .paren inner place])
      (checkArguments name fields fields.length (args.map Part.ofRun) place) fields
      (args.map Part.ofRun) := by
  refine ⟨fun values => .mkInit a.track callee qualified (slots fields) values, ?_⟩
  rw [Form.ofTokens_call named, listed.form_args, node, found]

theorem countsBy_function (name : String) (find : String → Option Ty) {ps : List Param}
    (ordered : ps.Pairwise fun p q => p.default?.isSome → q.default?.isSome)
    {args : List (List Token)} (some : ∀ arg ∈ args, arg ≠ []) (place : Place) :
    CountsBy (·.default?.isNone)
      (checkArguments name (paramList find ps) (paramList find ps).required
        (args.map Part.ofRun) place) name ps args.length place := by
  obtain ⟨needed, optional, rfl, must, may⟩ := exists_needed_append ordered
  have counts := countsBy_of_append (·.default?.isNone) name find must may
    (anyMissing_map_ofRun some) place
  rw [List.length_map] at counts
  rwa [required_paramList find must may]

theorem countsBy_struct (name : String) (find : String → Option Ty) (fields : List Param)
    {args : List (List Token)} (some : ∀ arg ∈ args, arg ≠ []) (place : Place) :
    CountsBy (fun _ => true)
      (checkArguments name (paramList find fields) (paramList find fields).length
        (args.map Part.ofRun) place) name fields args.length place := by
  have must : ∀ p ∈ fields, (fun _ : Param => true) p := fun _ _ => rfl
  have may : ∀ p ∈ ([] : List Param), (fun _ : Param => true) p = false := nofun
  have counts := countsBy_of_append _ name find must may (anyMissing_map_ofRun some) place
  rw [List.length_map, List.append_nil] at counts
  have size : (paramList find fields).length = fields.length := List.length_map ..
  rwa [size]

end Analyzer

/-- Calls of what a prelude declares count their arguments as the declaration says, under each of
its names: a function needs its parameters without a default value, a structure all its fields. -/
theorem arity_matches_declaration {source : String} {table : ScopeTable}
    (read : readPrelude source = .ok table) :
    ∃ ds, readDeclarations source = .ok ds ∧
      ∀ module? d, (module?, d) ∈ placed none ds → ∀ callee, Declares (module?, d) callee →
      ∀ head, dottedName? head = some callee → ∀ inner args, ArgumentList inner args →
      ∀ place track,
        let a : Analyzer := ⟨table.lookup?, track⟩
        let call := head ++ [.group .paren inner place]
        let params := paramList (typeOf ds) d.declared.params
        let check (name : String) (required : Nat) : Analysis Unit :=
          Analyzer.checkArguments name params required (args.map Part.ofRun) place
        a.analyzeCall call = a.node (.ofTokens call) ∧
        (∀ name ps returns?, d.declared = .function name ps returns? →
          a.ChecksFirst call (check name params.required) params (args.map Part.ofRun) ∧
          Analyzer.CountsBy (·.default?.isNone) (check name params.required) name ps args.length
            place) ∧
        ∀ name fields, d.declared = .struct name fields →
          a.ChecksFirst call (check name params.length) params (args.map Part.ofRun) ∧
          (check name params.length = pure () ↔ args.length = fields.length) ∧
          (args.length < fields.length → check name params.length = .fail
            (.missingArguments name ((fields.drop args.length).map Param.name)) place) ∧
          (fields.length < args.length → check name params.length = .fail
            (.tooManyArguments name fields.length args.length) place) := by
  obtain ⟨ds, declared, tabled⟩ := tabled_of_readPrelude read
  refine ⟨ds, declared, ?_⟩
  rintro module? ⟨declaration, span⟩ among callee declares head named inner args listed place track
  intro a call params check
  have found {s : Symbol} (stands : Declaration.symbol? (typeOf ds) module? ⟨declaration, span⟩ =
      some s) : a.lookup callee = some s :=
    tabled.lookup?_eq_some_iff.mpr ⟨_, among, declares, stands⟩
  have mem : ⟨declaration, span⟩ ∈ ds := (exists_name_of_mem_placed among).1
  have some := listed.forall_ne_nil
  refine ⟨congrArg a.node (Form.callOfTokens_call named inner place), ?_, ?_⟩
  · intro name ps returns? function
    cases function
    have ordered := tabled.wellFormed.order _ mem name ps returns? rfl
    constructor
    · exact Analyzer.checksFirst_function named (found rfl) listed place
    · exact Analyzer.countsBy_function name (typeOf ds) ordered some place
  · intro name fields struct
    cases struct
    obtain ⟨passes, -, few, many⟩ := Analyzer.countsBy_struct name (typeOf ds) fields some place
    -- All fields must be given, whether they have default values or not.
    rw [List.countP_true] at passes few
    refine ⟨Analyzer.checksFirst_struct named (found rfl) listed place, ?_, ?_, many⟩
    · constructor
      · intro passed
        have between := passes.mp passed
        omega
      · intro fits
        exact passes.mpr (by omega)
    · intro less
      have failed := few less
      rwa [List.filter_true] at failed

/- A comma stands behind the only argument, and the second parameter has a default value. -/
theorem arity_of_default :
    ∃ table, readPrelude "fn f(x: str, y: i32 = 1)" = .ok table ∧ ∀ place track,
      let a : Analyzer := ⟨table.lookup?, track⟩
      let one : List Token := [.leaf (.str "'a'") place]
      a.analyzeCall (nameTokens "f" ++ [.group .paren [] place]) =
        .fail (.missingArguments "f" ["x"]) place ∧
      ∃ params, a.ChecksFirst (nameTokens "f" ++ [.group .paren [.tuple [one, []] place] place])
        (pure ()) params [Part.ofRun one] := by
  let x : Param := ⟨"x", some "str", none, ⟨5, 11⟩⟩
  let y : Param := ⟨"y", some "i32", some (.number "1"), ⟨13, 23⟩⟩
  let d : Declaration := ⟨.function "f" [x, y] none, ⟨0, 24⟩⟩
  have declared : readDeclarations "fn f(x: str, y: i32 = 1)" = .ok [d] := by with_unfolding_all rfl
  obtain ⟨table, accepted⟩ : ∃ table, ScopeTable.ofDeclarations [d] = .ok table := ⟨_, rfl⟩
  have read := readPrelude_eq_ok_iff.mpr ⟨_, declared, accepted⟩
  obtain ⟨ds, same, counted⟩ := arity_matches_declaration read
  cases declared.symm.trans same
  have calls := counted none d List.mem_cons_self "f" ⟨"f", rfl, .inl rfl⟩ (nameTokens "f") rfl
  refine ⟨table, read, ?_⟩
  intro place track a one
  constructor
  · obtain ⟨same, functions, -⟩ := calls [] [] .none place track
    obtain ⟨⟨make, analyzed⟩, counts⟩ := functions "f" [x, y] none rfl
    have few : ([] : List (List Token)).length < [x, y].countP (·.default?.isNone) := by decide
    rw [same, analyzed, counts.few few]
    rfl
  · have listed : ArgumentList [.tuple [one, []] place] [one] :=
      .trailing (List.forall_mem_singleton.mpr (List.cons_ne_nil _ _))
    obtain ⟨-, functions, -⟩ := calls _ _ listed place track
    obtain ⟨first, counts⟩ := functions "f" [x, y] none rfl
    have fits : [x, y].countP (·.default?.isNone) ≤ 1 ∧ 1 ≤ [x, y].length := by decide
    rw [counts.passes.mpr fits] at first
    exact ⟨_, first⟩

end ExprCheck
