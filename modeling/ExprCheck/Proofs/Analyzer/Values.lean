import ExprCheck.Proofs.Analyzer.Builds
import ExprCheck.Proofs.Analyzer.Composed
import ExprCheck.Proofs.Verdict
/-! Verdicts and analyses. Main statements: an analysis of a run that is judged a value logs no
syntax error, and a run with a result is judged a value. -/
namespace ExprCheck

/-- The kind of fault that a finding reports, if it reports one. -/
def Finding.kind? (f : Finding) : Option FaultKind :=
  match f.concern with
  | .fault fault => some fault.kind
  | .undetermined => none

namespace Finding

theorem kind?_eq_some_iff {f : Finding} {kind : FaultKind} :
    f.kind? = some kind ↔ ∃ fault, f.concern = .fault fault ∧ fault.kind = kind := by
  unfold kind?
  cases f.concern <;> simp

theorem kind?_isSome (f : Finding) : f.kind?.isSome = f.isError := by
  unfold kind? isError
  cases f.concern <;> rfl

end Finding

namespace Analyzer

open Analysis

theorem analyze_ensures_of_value (a : Analyzer) (expected? : Option Ty) (run : List Token)
    (value : (Form.ofTokens run).IsValue a.lookup) :
    (a.analyze expected? run).Ensures fun r new =>
      (∀ f ∈ new, ∀ fault, f.concern = .fault fault → fault.kind ≠ .syntaxError) ∧
        (r = none → ∃ f ∈ new, f.isError = true) := by
  have admits : Admits fun fault => fault.kind ≠ .syntaxError := fun _ other => other
  have composed : Composed (fun fault => fault.kind ≠ .syntaxError) false
      (a.analyze expected? run) := a.analyze_composed admits expected? run (.inr value)
  apply (composed.faults.and composed.reports).mono
  intro r new logged
  exact ⟨logged.1, fun stopped => Log.not_clean_iff.mp (logged.2.1 stopped)⟩

/-- An analysis of a run that is judged a value logs no syntax error. It has a result, or all the
errors that it logs are of names and types, and there is one. -/
theorem no_syntaxError_of_value (a : Analyzer) (expected? : Option Ty) (run : List Token)
    (log : Log) (value : (valueVerdict a.lookup run).holds = true) :
    ∃ new, (a.analyze expected? run log).2 = log ++ new ∧
      (∀ f ∈ new, f.kind? ≠ some .syntaxError) ∧
      ((∃ e, (a.analyze expected? run log).1 = some e) ∨
        (a.analyze expected? run log).1 = none ∧
          (∃ f ∈ new, f.isError = true) ∧
          ∀ f ∈ new, f.isError = true → f.kind? = some .nameError ∨ f.kind? = some .typeError) := by
  have isValue := (valueVerdict_holds_iff run).mp value
  obtain ⟨new, appended, faults, told⟩ := a.analyze_ensures_of_value expected? run isValue log
  have noSyntax : ∀ f ∈ new, f.kind? ≠ some .syntaxError := by
    intro f hf same
    obtain ⟨fault, reported, kind⟩ := Finding.kind?_eq_some_iff.mp same
    exact faults f hf fault reported kind
  refine ⟨new, appended, noSyntax, ?_⟩
  cases found : (a.analyze expected? run log).1 with
  | some e => exact .inl ⟨e, rfl⟩
  | none =>
    refine .inr ⟨rfl, told found, fun f hf error => ?_⟩
    obtain ⟨kind, same⟩ := Option.isSome_iff_exists.mp (f.kind?_isSome.trans error)
    rw [same]
    cases kind with
    | syntaxError => exact absurd same (noSyntax f hf)
    | nameError => exact .inl rfl
    | typeError => exact .inr rfl

/-- No name stands for anything. -/
def nameless : Analyzer :=
  ⟨fun _ => none, false⟩

/-- The tokens of one minus something, all at one place. -/
def oneMinus (right : Leaf) : List Token :=
  [.leaf (.number "1") ⟨.point 0, 1⟩, .leaf (.op "-") ⟨.point 1, 1⟩, .leaf right ⟨.point 2, 1⟩]

theorem no_syntaxError_oneMinus_text :
    (valueVerdict nameless.lookup (oneMinus (.str "'a'"))).holds = true ∧
      ∃ new, (nameless.analyze none (oneMinus (.str "'a'")) []).2 = new ∧
        (∀ f ∈ new, f.kind? ≠ some .syntaxError) ∧
        ∃ f ∈ new, f.kind? = some .nameError ∨ f.kind? = some .typeError := by
  have value : (valueVerdict nameless.lookup (oneMinus (.str "'a'"))).holds = true := by
    decide +kernel
  have stopped : (nameless.analyze none (oneMinus (.str "'a'")) []).1.isNone = true := by
    decide +kernel
  obtain ⟨new, appended, noSyntax, ⟨e, made⟩ | ⟨-, ⟨f, hf, error⟩, kinds⟩⟩ :=
    no_syntaxError_of_value nameless none _ [] value
  · rw [made] at stopped
    cases stopped
  · exact ⟨value, new, appended, noSyntax, f, hf, kinds f hf error⟩

theorem value_of_analyze (a : Analyzer) (expected? : Option Ty) (run : List Token) (log : Log)
    (e : Expr) (made : (a.analyze expected? run log).1 = some e) :
    (valueVerdict a.lookup run).holds = true :=
  (valueVerdict_holds_iff run).mpr ((analyze_yields expected? run).result made).1

theorem value_oneMinus_one :
    (nameless.analyze none (oneMinus (.number "1")) []).1.isSome = true ∧
      (valueVerdict nameless.lookup (oneMinus (.number "1"))).holds = true := by
  have succeeds : (nameless.analyze none (oneMinus (.number "1")) []).1.isSome = true := by
    decide +kernel
  obtain ⟨e, made⟩ := Option.isSome_iff_exists.mp succeeds
  exact ⟨succeeds, value_of_analyze nameless none _ [] e made⟩

end Analyzer

end ExprCheck
