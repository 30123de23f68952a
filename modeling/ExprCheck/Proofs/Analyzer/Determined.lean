import ExprCheck.Proofs.Analyzer.Composed
/-! Analyses and the log that they start from. The errors of a log are counted only to see whether a
part of an analysis has added one. Main statement: what an analysis answers and what it adds to the
log do not depend on what was logged before it. -/
namespace ExprCheck

namespace Analysis

variable {α : Type}

/-- One answer and one addition to the log, whatever was logged before. -/
def Determined (m : Analysis α) : Prop :=
  ∃ result added, m.Ensures fun r new => r = result ∧ new = added

theorem Determined.eq_of_empty {m : Analysis α} (h : m.Determined) (log : Log) :
    m log = ((m []).1, log ++ (m []).2) := by
  obtain ⟨result, added, same⟩ := h
  obtain ⟨new, appended, answer, rfl⟩ := same log
  obtain ⟨new', appended', answer', rfl⟩ := same []
  rw [answer', appended', List.nil_append, ← answer, ← appended]

theorem Determined.answers {m : Analysis α} (h : m.Determined) :
    m.Yields fun x _ => (m []).1 = some x := by
  intro log
  have same := h.eq_of_empty log
  exact ⟨(m []).2, congrArg Prod.snd same, fun x made => (congrArg Prod.fst same).symm.trans made⟩

theorem Composed.determined {F : Fault → Prop} {lenient : Bool} {m : Analysis α}
    (h : Composed F lenient m) : m.Determined := by
  induction h with
  | pure x => exact ⟨some x, [], ensures_pure ⟨rfl, rfl⟩⟩
  | fail place? ok => exact ⟨none, _, ensures_fail ⟨rfl, rfl⟩⟩
  | warn place? => exact ⟨some (), _, ensures_note ⟨rfl, rfl⟩⟩
  | mismatch place? ok => exact ⟨some (), _, ensures_note ⟨rfl, rfl⟩⟩
  | bind first next ihFirst ihNext =>
    -- A step that stops leaves out the steps after it.
    obtain ⟨result, before, same⟩ := ihFirst
    cases result with
    | none =>
      refine ⟨none, before, same.bind (fun _ stopped => ⟨rfl, stopped.2⟩) ?_⟩
      intro x _ went
      cases went.1
    | some x =>
      obtain ⟨result, after, same'⟩ := ihNext x
      refine ⟨result, before ++ after, same.bind (fun _ stopped => ?_) ?_⟩
      · cases stopped.1
      · intro y new went
        cases went.1
        exact same'.mono fun _ _ settled => ⟨settled.1, by rw [went.2, settled.2]⟩
  | whole inner ih =>
    -- Only what the inner step has added is looked at.
    obtain ⟨result, added, same⟩ := ih
    by_cases clean : added.Clean
    · refine ⟨result, added, same.whole (fun _ stopped => stopped) ?_ fun _ _ went _ => went⟩
      rintro x new ⟨-, rfl⟩ unclean
      exact absurd clean unclean
    · refine ⟨none, added, same.whole (fun _ stopped => ⟨rfl, stopped.2⟩)
        (fun _ _ went _ => ⟨rfl, went.2⟩) ?_⟩
      rintro x new ⟨-, rfl⟩ clean'
      exact absurd clean' clean

end Analysis

theorem Log.diagnostics_append (path : String) (first second : Log) :
    Log.diagnostics path (first ++ second) = first.diagnostics path ++ second.diagnostics path :=
  List.map_append

namespace Analyzer

theorem analyze_determined (a : Analyzer) (expected? : Option Ty) (run : List Token) :
    (a.analyze expected? run).Determined := by
  have composed : Analysis.Composed (fun _ => True) false (a.analyze expected? run) :=
    a.analyze_composed (fun _ _ => trivial) expected? run (.inl trivial)
  exact composed.determined

/-- An analysis answers what it answers on the empty log and adds what it adds to the empty log,
however many errors were logged before. So doing it once more gives the same answer and adds the
same again. -/
theorem analyze_any_log (a : Analyzer) (expected? : Option Ty) (run : List Token) (log : Log) :
    let fresh := a.analyze expected? run []
    let first := a.analyze expected? run log
    first = (fresh.1, log ++ fresh.2) ∧
      (∀ path, first.2.diagnostics path = log.diagnostics path ++ fresh.2.diagnostics path) ∧
      a.analyze expected? run first.2 = (first.1, first.2 ++ fresh.2) := by
  intro fresh first
  have determined := (a.analyze_determined expected? run).eq_of_empty
  have once : first = (fresh.1, log ++ fresh.2) := determined log
  refine ⟨once, fun path => ?_, ?_⟩
  · rw [once, Log.diagnostics_append]
  · rw [once]
    exact determined (log ++ fresh.2)

end Analyzer

end ExprCheck
