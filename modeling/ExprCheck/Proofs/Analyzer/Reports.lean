import ExprCheck.Program
import ExprCheck.Proofs.Analyzer.Composed
/-! Failing and logging an error are the same thing. Main statement: an analysis gives up exactly if
it has added an error to the diagnostics, and adds only warnings if it does not; so a source has an
error exactly if one of its lines has no expression. -/
namespace ExprCheck

theorem Finding.level_diagnostic (path : String) (f : Finding) :
    (f.diagnostic path).level = if f.isError then .error else .warning :=
  rfl

namespace Log

theorem exists_error_iff (path : String) (log : Log) :
    (∃ d ∈ log.diagnostics path, d.level = .error) ↔ ¬ log.Clean := by
  rw [not_clean_iff]
  constructor
  · rintro ⟨d, hd, error⟩
    obtain ⟨f, hf, rfl⟩ := List.mem_map.mp hd
    refine ⟨f, hf, ?_⟩
    cases found : f.isError with
    | true => rfl
    | false => simp [Finding.level_diagnostic, found] at error
  · rintro ⟨f, hf, error⟩
    exact ⟨_, List.mem_map_of_mem hf, by rw [Finding.level_diagnostic, if_pos error]⟩

theorem forall_warning_of_clean (path : String) {log : Log} (clean : log.Clean) :
    ∀ d ∈ log.diagnostics path, d.level = .warning := by
  intro d hd
  obtain ⟨f, hf, rfl⟩ := List.mem_map.mp hd
  rw [Finding.level_diagnostic, clean f hf]
  rfl

end Log

namespace Analysis

variable {α : Type}

/-- The analysis adds diagnostics to those it finds. It gives up exactly if there is an error among
them, and otherwise all of them are warnings. -/
def Accountable (m : Analysis α) : Prop :=
  ∀ path log, ∃ new,
    Log.diagnostics path (m log).2 = Log.diagnostics path log ++ new ∧
    ((m log).1 = none ↔ ∃ d ∈ new, d.level = .error) ∧
    ((m log).1 ≠ none → ∀ d ∈ new, d.level = .warning)

/-- The lenient parts of an analysis are inside steps that settle them. -/
theorem Composed.gives_up_iff {F : Fault → Prop} {m : Analysis α} (h : Composed F false m) :
    m.Ensures fun r new => r = none ↔ ¬ new.Clean := by
  refine h.reports.mono fun r new told => ⟨told.1, fun unclean => ?_⟩
  cases r with
  | none => rfl
  | some x => exact absurd (told.2 rfl (by simp)) unclean

theorem Composed.accountable {F : Fault → Prop} {m : Analysis α} (h : Composed F false m) :
    m.Accountable := by
  intro path log
  obtain ⟨new, appended, settled⟩ := h.gives_up_iff log
  refine ⟨Log.diagnostics path new, ?_, ?_, ?_⟩
  · rw [appended, Log.diagnostics, Log.diagnostics, Log.diagnostics, List.map_append]
  · rw [settled, Log.exists_error_iff]
  · intro went
    apply Log.forall_warning_of_clean
    exact Classical.not_not.mp fun unclean => went (settled.mpr unclean)

end Analysis

namespace Analyzer

open Analysis

theorem analyze_gives_up_iff (a : Analyzer) (expected? : Option Ty) (run : List Token) :
    (a.analyze expected? run).Ensures fun r new => r = none ↔ ¬ new.Clean :=
  (a.analyze_composed (F := fun _ => True) (fun _ _ => trivial) expected? run
    (.inl trivial)).gives_up_iff

theorem analyzeRuns_unclean_iff (a : Analyzer) (runs : List (List Token)) (log : Log) :
    ∃ new, (a.analyzeRuns runs log).2 = log ++ new ∧
      (¬ new.Clean ↔ ∃ line ∈ (a.analyzeRuns runs log).1, line.expr? = none) := by
  induction runs generalizing log with
  | nil => exact ⟨[], by simp [analyzeRuns], by simp [analyzeRuns, Log.Clean]⟩
  | cons run rest ih =>
    obtain ⟨here, appended, settled⟩ := a.analyze_gives_up_iff none run log
    obtain ⟨below, appended', settled'⟩ := ih (a.analyze none run log).2
    refine ⟨here ++ below, ?_, ?_⟩
    · simp only [analyzeRuns]
      rw [appended', appended, List.append_assoc]
    · simp only [analyzeRuns, List.mem_cons, exists_eq_or_imp]
      rw [Log.clean_append, Classical.not_and_iff_not_or_not]
      exact or_congr settled.symm settled'

/-- An analysis of a run, as an expression or as a call, gives up exactly if it has added an error,
whatever was logged before. A source has an error exactly if one of its lines has no expression. -/
theorem gives_up_iff_error (a : Analyzer) :
    (∀ expected? run, (a.analyze expected? run).Accountable) ∧
    (∀ run, (a.analyzeCall run).Accountable) ∧
    ∀ source outcome, a.analyzeLines source = .ok outcome →
      (outcome.hasErrors = true ↔ ∃ line ∈ outcome.lines, line.expr? = none) := by
  have anyFault : Admits fun _ => True := fun _ _ => trivial
  refine ⟨fun expected? run => ?_, fun run => ?_, fun source outcome read => ?_⟩
  · exact (a.analyze_composed anyFault expected? run (.inl trivial)).accountable
  · exact (a.node_composed anyFault _ (.inl trivial)).accountable
  · unfold analyzeLines at read
    cases tokens : tokenize source with
    | error e => simp [tokens, bind, Except.bind] at read
    | ok ts =>
      simp only [tokens, bind, Except.bind, pure, Except.pure, Except.ok.injEq] at read
      obtain ⟨new, appended, settled⟩ := a.analyzeRuns_unclean_iff (tokenLines ts) []
      subst read
      rw [← settled, Log.not_clean_iff]
      simp [Outcome.hasErrors, appended]

theorem hasErrors_of_unknown_name :
    ∃ outcome, analyzeLines ⟨fun _ => none, false⟩ "1\nx" = .ok outcome ∧
      outcome.hasErrors = true ∧ ∃ line ∈ outcome.lines, line.expr? = none := by
  have read : (analyzeLines ⟨fun _ => none, false⟩ "1\nx").toOption.any Outcome.hasErrors := by
    decide +kernel
  cases found : analyzeLines ⟨fun _ => none, false⟩ "1\nx" with
  | error e => simp [found, Except.toOption] at read
  | ok outcome =>
    have errors : outcome.hasErrors = true := by simpa [found, Except.toOption] using read
    exact ⟨outcome, rfl, errors, ((gives_up_iff_error _).2.2 _ outcome found).mp errors⟩

end Analyzer

end ExprCheck
