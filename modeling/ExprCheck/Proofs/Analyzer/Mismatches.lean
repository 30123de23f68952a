import Mathlib.Data.List.Forall2
import ExprCheck.Proofs.Analyzer.Arity
import ExprCheck.Proofs.Analyzer.Determined
import ExprCheck.Proofs.Analyzer.Reports
/-! Arguments of another type than their parameters. A call compares all its arguments before it
gives up. The analysis of an argument asks only for the errors that it has added itself, so no
mismatch hides a later one. Main statement: where every argument has an expression, a call logs one
error for each argument of another type, in order, and gives up exactly if there is one. -/
namespace ExprCheck

namespace Log

/-- The findings that are errors. -/
def errors (log : Log) : Log :=
  log.filter Finding.isError

theorem errors_append (first second : Log) :
    errors (first ++ second) = first.errors ++ second.errors :=
  List.filter_append ..

theorem clean_iff_errors {log : Log} : log.Clean ↔ log.errors = [] := by
  simp [Clean, errors, List.filter_eq_nil_iff]

end Log

namespace Analysis

variable {α β γ : Type}

theorem bind_assoc (m : Analysis α) (f : α → Analysis β) (g : β → Analysis γ) :
    ((m >>= f) >>= g) = m >>= fun x => f x >>= g := by
  funext log
  change Analysis.bind (Analysis.bind m f) g log = Analysis.bind m (fun x => f x >>= g) log
  unfold Analysis.bind
  generalize m log = out
  obtain ⟨r, after⟩ := out
  cases r <;> rfl

theorem Composed.whole_eq {F : Fault → Prop} {m : Analysis α} (h : Composed F false m) :
    m.whole = m := by
  funext log
  obtain ⟨new, appended, settled⟩ := h.gives_up_iff log
  unfold Analysis.whole
  generalize m log = out at appended settled ⊢
  obtain ⟨r, after⟩ := out
  obtain rfl : after = log ++ new := appended
  cases r with
  | none => rfl
  | some x =>
    have clean : new.Clean := Classical.not_not.mp fun unclean => nomatch settled.mpr unclean
    simp only [if_neg fun more => (Log.errorCount_lt_append_iff log new).mp more clean]

theorem Ensures.bind_known {m : Analysis α} {f : α → Analysis β} {x : α} {R : Log → Prop}
    {S : Option β → Log → Prop} (h : m.Ensures fun r new => r = some x ∧ R new)
    (next : ∀ before, R before → (f x).Ensures fun r after => S r (before ++ after)) :
    (m >>= f).Ensures S := by
  refine Ensures.bind h (fun _ stopped => absurd stopped.1.symm (Option.some_ne_none x)) ?_
  rintro y before ⟨same, told⟩
  exact Option.some.inj same ▸ next before told

/-- The errors that the step logs are these, and it gives up exactly if there is one. -/
def FailsBy (m : Analysis α) (errors : Log) : Prop :=
  m.Ensures fun r new => new.errors = errors ∧ (r = none ↔ errors ≠ [])

theorem failsBy_whole {m : Analysis α} {x : α} {errors : Log}
    (h : m.Ensures fun r new => r = some x ∧ new.errors = errors) : m.whole.FailsBy errors := by
  refine h.whole (fun _ stopped => absurd stopped.1.symm (Option.some_ne_none x)) ?_ ?_
  · rintro _ new ⟨-, rfl⟩ unclean
    exact ⟨rfl, by simpa [Log.clean_iff_errors] using unclean⟩
  · rintro _ new ⟨-, rfl⟩ clean
    exact ⟨rfl, by simpa [Log.clean_iff_errors] using clean⟩

theorem FailsBy.map {m : Analysis α} {errors : Log} (h : m.FailsBy errors) (f : α → β) :
    (do return f (← m)).FailsBy errors := by
  refine Ensures.bind h (fun _ stopped => by simpa using stopped) ?_
  rintro x before ⟨logged, goes⟩
  exact ensures_pure ⟨by rwa [List.append_nil], by simpa using goes⟩

end Analysis

/-- What a call of the symbol takes: its parameters, and how many of them must be given. -/
def Symbol.signature? : Symbol → Option (ParamList × Nat)
  | function _ params _ _ => some (params, params.required)
  | .struct _ _ fields _ => some (fields, fields.length)
  | var .. => none

/-- A run that calls what its name stands for, with what the call takes and the arguments between
the parentheses. -/
inductive CallOf (lookup : Lookup) : List Token → ParamList → Nat → List (List Token) → Prop
  | intro {head inner : List Token} {callee : String} {symbol : Symbol} {params : ParamList}
      {required : Nat} {args : List (List Token)} {place : Place}
      (named : dottedName? head = some callee) (found : lookup callee = some symbol)
      (takes : symbol.signature? = some (params, required)) (listed : ArgumentList inner args) :
      CallOf lookup (head ++ [.group .paren inner place]) params required args

theorem CallOf.forall_ne_nil {lookup : Lookup} {call : List Token} {params : ParamList}
    {required : Nat} {args : List (List Token)} (h : CallOf lookup call params required args) :
    ∀ arg ∈ args, arg ≠ [] := by
  obtain ⟨named, found, takes, listed⟩ := h
  exact listed.forall_ne_nil

namespace Analyzer

open Analysis

/-- So asking around any part of an expression whether the part has added an error changes nothing;
only the arguments of a call may log one and go on. -/
theorem node_whole (a : Analyzer) (form : Form) : (a.node form).whole = a.node form :=
  Composed.whole_eq (a.node_composed (F := fun _ => True) (fun _ _ => trivial) form (.inl trivial))

/-! ## One argument -/

/-- The error of an argument whose type is known and not the known one that is expected. -/
def mismatch? (param : ParamSpec) (first? : Option Place) (value : Expr) : Option Finding :=
  match param.expected, value.resultType with
  | .known expected, .known found =>
      if expected = found then none else some ⟨.fault (.typeMismatch expected found), first?⟩
  | _, _ => none

theorem mismatch?_eq_some_iff {param : ParamSpec} {first? : Option Place} {value : Expr}
    {f : Finding} : mismatch? param first? value = some f ↔
      ∃ expected found, param.expected = .known expected ∧ value.resultType = .known found ∧
        expected ≠ found ∧ f = ⟨.fault (.typeMismatch expected found), first?⟩ := by
  unfold mismatch?
  split
  · rename_i expected found wants has
    constructor
    · intro noted
      split at noted
      · cases noted
      · rename_i differ
        exact ⟨expected, found, wants, has, differ, (Option.some.inj noted).symm⟩
    · rintro ⟨expected', found', wants', has', differ, rfl⟩
      cases wants.symm.trans wants'
      cases has.symm.trans has'
      rw [if_neg differ]
  · rename_i unknown
    constructor
    · exact nofun
    · rintro ⟨expected, found, wants, has, -⟩
      exact absurd has (unknown expected found wants)

theorem isError_of_mismatch? {param : ParamSpec} {first? : Option Place} {value : Expr}
    {f : Finding} (noted : mismatch? param first? value = some f) : f.isError = true := by
  obtain ⟨expected, found, -, -, -, rfl⟩ := mismatch?_eq_some_iff.mp noted
  rfl

theorem compareArgument_ensures (param : ParamSpec) (first : Place) (value : Expr) :
    (compareArgument param first value).Ensures fun r new =>
      r = some () ∧ new = (mismatch? param first value).toList := by
  unfold compareArgument mismatch?
  cases param.expected with
  | known expected =>
    cases value.resultType with
    | known found =>
      dsimp only
      split
      · exact ensures_pure ⟨rfl, rfl⟩
      · exact ensures_note ⟨rfl, rfl⟩
    | _ => exact ensures_pure ⟨rfl, rfl⟩
  | _ => exact ensures_pure ⟨rfl, rfl⟩

/-- An analysis that has an expression has it after any log, and logs no error. -/
theorem analyze_returns {a : Analyzer} {expected? : Option Ty} {run : List Token} {log : Log}
    {value : Expr} (made : (a.analyze expected? run log).1 = some value) :
    (a.analyze expected? run).Returns value := by
  have determined := a.analyze_determined expected? run
  have fresh : (a.analyze expected? run []).1 = some value :=
    (congrArg Prod.fst (determined.eq_of_empty log)).symm.trans made
  refine Ensures.mono ((a.analyze_gives_up_iff expected? run).and ?_) ?_
    (R := fun r new => (r = none ↔ ¬ new.Clean) ∧ r = some value)
  · intro log
    have same := determined.eq_of_empty log
    exact ⟨_, congrArg Prod.snd same, (congrArg Prod.fst same).trans fresh⟩
  · rintro r new ⟨settled, rfl⟩
    exact ⟨rfl, Classical.not_not.mp fun unclean => nomatch settled.mpr unclean⟩

/-! ## All arguments -/

/-- The errors of arguments, each with its expression, in order. -/
def mismatches (params : ParamList) (args : List (List Token)) (values : List Expr) : Log :=
  (params.zip (args.zip values)).filterMap fun (p, arg, value) =>
    mismatch? p.2 (firstPlace? arg) value

theorem mismatches_cons (p : String × ParamSpec) (params : ParamList) (arg : List Token)
    (args : List (List Token)) (value : Expr) (values : List Expr) :
    mismatches (p :: params) (arg :: args) (value :: values) =
      (mismatch? p.2 (firstPlace? arg) value).toList ++ mismatches params args values := by
  unfold mismatches
  rw [List.zip_cons_cons, List.zip_cons_cons, List.filterMap_cons]
  dsimp only
  cases mismatch? p.2 (firstPlace? arg) value <;> rfl

def partNode (a : Analyzer) (first : Place) (form : Form) : Analysis Expr := do
  conclude first none (← a.node form)

theorem argumentNodes_cons (a : Analyzer) (p : String × ParamSpec) (params : ParamList)
    (first : Place) (form : Form) (args : List Part) :
    a.argumentNodes (p :: params) (.run first form :: args) = do
      let value ← a.partNode first form
      compareArgument p.2 first value
      return value :: (← a.argumentNodes params args) :=
  (bind_assoc ..).symm

theorem argumentNodes_ensures {a : Analyzer} {params : ParamList} {args : List (List Token)}
    {values : List Expr} (some : ∀ arg ∈ args, arg ≠ [])
    (analyzed : List.Forall₂ (fun arg value => (a.analyze none arg).Returns value) args values)
    (fits : args.length ≤ params.length) :
    (a.argumentNodes params (args.map Part.ofRun)).Ensures fun r new =>
      r = .some values ∧ new.errors = mismatches params args values := by
  induction analyzed generalizing params with
  | nil => cases params <;> exact ensures_pure ⟨rfl, rfl⟩
  | @cons arg value args values here below ih =>
    obtain ⟨filled, others⟩ := List.forall_mem_cons.mp some
    obtain ⟨t, rest, rfl⟩ := List.exists_cons_of_ne_nil filled
    cases params with
    | nil => cases fits
    | cons p params =>
      have rest' := ih others (Nat.le_of_succ_le_succ fits)
      rw [List.map_cons, Part.ofRun, argumentNodes_cons, mismatches_cons]
      refine Ensures.bind_known here fun analysis clean => ?_
      refine (compareArgument_ensures p.2 t.place value).bind_known fun compared same => ?_
      refine rest'.bind_known fun others logged => ensures_pure ⟨rfl, ?_⟩
      have single : Log.errors (mismatch? p.2 t.place value).toList =
          (mismatch? p.2 t.place value).toList :=
        List.filter_eq_self.mpr fun f noted => isError_of_mismatch? (Option.mem_toList.mp noted)
      rw [List.append_nil, Log.errors_append, Log.errors_append, Log.clean_iff_errors.mp clean,
        same, single, logged]
      rfl

/-! ## Calls -/

theorem checkArguments_of_fits (name : String) {params : ParamList} {required : Nat}
    {args : List (List Token)} (some : ∀ arg ∈ args, arg ≠ []) (enough : required ≤ args.length)
    (fits : args.length ≤ params.length) (place : Place) :
    checkArguments name params required (args.map Part.ofRun) place = pure () := by
  rw [checkArguments, anyMissing_map_ofRun some, if_neg Bool.false_ne_true, checkCount,
    List.length_map, if_neg (by omega), if_neg (by omega)]

variable {call : List Token} {params : ParamList} {required : Nat} {args : List (List Token)}

/-- Past the count, a call is what its arguments are. -/
theorem analyzeCall_of_fits {a : Analyzer} (calls : CallOf a.lookup call params required args)
    (enough : required ≤ args.length) (fits : args.length ≤ params.length) :
    ∃ make : List Expr → Expr, a.analyzeCall call = do
      return make (← (a.argumentNodes params (args.map Part.ofRun)).whole) := by
  have counted (name : String) (place : Place) :=
    checkArguments_of_fits name calls.forall_ne_nil enough fits place
  obtain ⟨named, found, takes, listed⟩ := calls
  rename_i head inner callee symbol place
  have same : a.analyzeCall (head ++ [.group .paren inner place]) =
      a.node (.ofTokens (head ++ [.group .paren inner place])) :=
    congrArg a.node (Form.callOfTokens_call named inner place)
  cases symbol with
  | function name _ returns span =>
    cases takes
    obtain ⟨make, read⟩ := checksFirst_function named found listed place
    rw [counted] at read
    exact ⟨make, same.trans read⟩
  | struct name qualified _ span =>
    cases takes
    obtain ⟨make, read⟩ := checksFirst_struct named found listed place
    rw [counted] at read
    exact ⟨make, same.trans read⟩
  | var name ty span => cases takes

/-- Where every argument has an expression, a call with enough and not too many of them logs exactly
one error for each argument whose known type is not the known type expected of it, in order and each
at the first token of its argument. It gives up exactly if there is one. -/
theorem analyzeCall_mismatches {a : Analyzer} {call : List Token} {params : ParamList}
    {required : Nat} {args : List (List Token)} {values : List Expr} {log : Log}
    (calls : CallOf a.lookup call params required args) (enough : required ≤ args.length)
    (fits : args.length ≤ params.length)
    (analyzed : List.Forall₂ (fun arg value => (a.analyze none arg log).1 = some value) args
      values) :
    ∃ new, (a.analyzeCall call log).2 = log ++ new ∧
      new.errors = mismatches params args values ∧
      ((a.analyzeCall call log).1 = none ↔ mismatches params args values ≠ []) := by
  have returns := analyzed.imp fun arg value made => analyze_returns made
  have compared := argumentNodes_ensures calls.forall_ne_nil returns fits
  obtain ⟨make, read⟩ := analyzeCall_of_fits calls enough fits
  have settled : (a.analyzeCall call).FailsBy (mismatches params args values) := by
    rw [read]
    exact (failsBy_whole compared).map make
  exact settled log

/- Both arguments of `f('a', 1)` are of the other's type. -/
theorem analyzeCall_mismatches_swapped :
    let p : Place := ⟨⟨2, 5⟩, 1⟩
    let q : Place := ⟨⟨7, 8⟩, 1⟩
    let x : ParamSpec := ⟨some (.int .i32), none, ⟨0, 1⟩⟩
    let y : ParamSpec := ⟨some .str, none, ⟨0, 1⟩⟩
    let f : Symbol := .function "f" [("x", x), ("y", y)] .undetermined ⟨0, 1⟩
    let a : Analyzer := ⟨fun _ => some f, false⟩
    let args : List (List Token) := [[.leaf (.str "'a'") p], [.leaf (.number "1") q]]
    let call := nameTokens "f" ++ [.group .paren [.tuple args p] p]
    ∃ new : Log, (a.analyzeCall call []).2 = [] ++ new ∧
      new.errors = [⟨.fault (.typeMismatch (.int .i32) .str), p⟩,
        ⟨.fault (.typeMismatch .str (.int .i32)), q⟩] ∧
      (a.analyzeCall call []).1 = none := by
  intro p q x y f a args call
  have named : dottedName? (nameTokens "f") = some "f" := rfl
  have found : a.lookup "f" = some f := rfl
  have calls : CallOf a.lookup call [("x", x), ("y", y)] 2 args :=
    .intro named found rfl (.several (by simp [args]))
  have analyzed : List.Forall₂ (fun arg value => (a.analyze none arg []).1 = some value) args
      [.ofLiteral false (.str "'a'"), .ofLiteral false (.number "1")] :=
    .cons rfl (.cons rfl .nil)
  obtain ⟨new, appended, logged, gives⟩ :=
    analyzeCall_mismatches calls (Nat.le_refl 2) (Nat.le_refl 2) analyzed
  exact ⟨new, appended, logged.trans (by decide +kernel), gives.mpr (by decide +kernel)⟩

end Analyzer

end ExprCheck
