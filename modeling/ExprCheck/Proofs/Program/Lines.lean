import ExprCheck.Program
import ExprCheck.Proofs.Analyzer.Determined
import ExprCheck.Proofs.Analyzer.Places
import ExprCheck.Proofs.Token.Lines
/-! Analyses of sources that are put one behind the other. No lexeme reaches over a line feed, no
bracket is open behind a source that has tokens, and no line sees what the lines before it have
logged. Main statement: the analysis of two sources with a line feed between them is that of the
first followed by that of the second, with all positions moved. -/
namespace ExprCheck

variable (d : Shift)

def LineResult.moved (r : LineResult) : LineResult :=
  ⟨d.lines + r.line, r.span.moved d, r.expr?⟩

def Diagnostic.moved (diagnostic : Diagnostic) : Diagnostic :=
  { diagnostic with
    span? := diagnostic.span?.map (Span.moved d)
    line? := diagnostic.line?.map fun line => d.lines + line }

theorem Finding.diagnostic_moved (path : String) (found : Finding) :
    (found.mapPlaces (Place.moved d)).diagnostic path = (found.diagnostic path).moved d := by
  obtain ⟨concern, place?⟩ := found
  cases place? <;> rfl

theorem Log.diagnostics_moved (path : String) (log : Log) :
    (log.mapPlaces (Place.moved d)).diagnostics path =
      (log.diagnostics path).map (Diagnostic.moved d) := by
  simp [Log.diagnostics, Log.mapPlaces, Finding.diagnostic_moved]

theorem exists_places {run : List Token} (some : run ≠ []) :
    ∃ first last, firstPlace? run = .some first ∧ lastPlace? run = .some last := by
  cases run with
  | nil => exact absurd rfl some
  | cons t rest =>
    exact ⟨t.place, (rest.getLast?.getD t).place, rfl, by simp [lastPlace?, List.getLast?_cons]⟩

theorem lineResult_moved {run : List Token} (some : run ≠ []) (expr? : Option Expr) :
    lineResult (run.map (Token.moved d)) expr? = (lineResult run expr?).moved d := by
  obtain ⟨first, last, starts, ends⟩ := exists_places some
  simp [lineResult, runSpan, starts, ends, LineResult.moved, Place.moved, Span.moved]

namespace Analyzer

/-- Each line is analysed as on an empty log, and what it adds to the log stands behind what the
lines before it have added. -/
theorem analyzeRuns_eq (a : Analyzer) (runs : List (List Token)) (log : Log) :
    a.analyzeRuns runs log =
      (runs.map fun run => lineResult run (a.analyze none run []).1,
        log ++ runs.flatMap fun run => (a.analyze none run []).2) := by
  induction runs generalizing log with
  | nil => simp [analyzeRuns]
  | cons run rest ih =>
    have line := (a.analyze_determined none run).eq_of_empty log
    simp only [analyzeRuns, line, ih, List.map_cons, List.flatMap_cons, List.append_assoc]

theorem analyzeRuns_append (a : Analyzer) (runs more : List (List Token)) :
    a.analyzeRuns (runs ++ more) [] =
      ((a.analyzeRuns runs []).1 ++ (a.analyzeRuns more []).1,
        (a.analyzeRuns runs []).2 ++ (a.analyzeRuns more []).2) := by
  simp only [analyzeRuns_eq, List.map_append, List.flatMap_append, List.nil_append]

theorem analyzeLines_of_tokenize (a : Analyzer) {source : String} {ts : List Token}
    (read : tokenize source = .ok ts) :
    a.analyzeLines source = .ok ⟨(a.analyzeRuns (tokenLines ts) []).1,
      (a.analyzeRuns (tokenLines ts) []).2⟩ := by
  unfold analyzeLines
  rw [read]
  rfl

theorem analyzeRuns_moved (a : Analyzer) {runs : List (List Token)} (some : ∀ run ∈ runs, run ≠ [])
    (log : Log) :
    a.analyzeRuns (runs.map (List.map (Token.moved d))) (log.mapPlaces (Place.moved d)) =
      ((a.analyzeRuns runs log).1.map (LineResult.moved d),
        (a.analyzeRuns runs log).2.mapPlaces (Place.moved d)) := by
  induction runs generalizing log with
  | nil => rfl
  | cons run rest ih =>
    obtain ⟨here, below⟩ := List.forall_mem_cons.mp some
    have line := a.analyze_mirrors none run (f := Place.moved d) log
    have later := ih below (a.analyze none run log).2
    simp only [Option.map_id_apply] at line
    simp only [List.map_cons, analyzeRuns, line, later, lineResult_moved d here]

/-- Two sources that both have tokens, with a line feed between them: the analysis has an outcome,
its lines and its diagnostics are those of the first source and then those of the second, and the
latter lie behind the bytes and the lines of the first. -/
theorem analyzeLines_join (a : Analyzer) {first second : String} {ts us : List Token}
    (one : tokenize first = .ok ts) (two : tokenize second = .ok us) :
    ∃ o₁ o₂ o, a.analyzeLines first = .ok o₁ ∧ a.analyzeLines second = .ok o₂ ∧
      a.analyzeLines (first ++ "\n" ++ second) = .ok o ∧
      o.lines = o₁.lines ++ o₂.lines.map (LineResult.moved (.past first)) ∧
      ∀ path, o.log.diagnostics path =
        o₁.log.diagnostics path ++
          (o₂.log.diagnostics path).map (Diagnostic.moved (.past first)) := by
  let d : Shift := .past first
  obtain ⟨ws, both, lines⟩ := tokenLines_join one two
  have moved : a.analyzeRuns ((tokenLines us).map (List.map (Token.moved d))) [] =
      ((a.analyzeRuns (tokenLines us) []).1.map (LineResult.moved d),
        (a.analyzeRuns (tokenLines us) []).2.mapPlaces (Place.moved d)) :=
    a.analyzeRuns_moved d (fun _ mem => ne_nil_of_mem_tokenLines mem) []
  have whole : a.analyzeRuns (tokenLines ws) [] =
      ((a.analyzeRuns (tokenLines ts) []).1 ++
          (a.analyzeRuns (tokenLines us) []).1.map (LineResult.moved d),
        (a.analyzeRuns (tokenLines ts) []).2 ++
          (a.analyzeRuns (tokenLines us) []).2.mapPlaces (Place.moved d)) := by
    rw [lines, analyzeRuns_append, moved]
  refine ⟨_, _, _, a.analyzeLines_of_tokenize one, a.analyzeLines_of_tokenize two,
    a.analyzeLines_of_tokenize both, ?_, fun path => ?_⟩
  · rw [whole]
  · rw [whole, Log.diagnostics_append, Log.diagnostics_moved]

/- The line feed between the brackets of the first source ends no line but is counted. -/
theorem analyzeLines_join_brackets :
    ∃ o₁ o₂ o, analyzeLines ⟨fun _ => none, false⟩ "(\n)" = .ok o₁ ∧
      analyzeLines ⟨fun _ => none, false⟩ "x" = .ok o₂ ∧
      analyzeLines ⟨fun _ => none, false⟩ ("(\n)" ++ "\n" ++ "x") = .ok o ∧
      o.lines = o₁.lines ++ o₂.lines.map (LineResult.moved ⟨4, 2⟩) ∧
      ∀ path, o.log.diagnostics path =
        o₁.log.diagnostics path ++ (o₂.log.diagnostics path).map (Diagnostic.moved ⟨4, 2⟩) := by
  have one : tokenize "(\n)" =
      .ok [.group .paren [] ⟨⟨0, 3⟩, 1⟩, .leaf .endMarker ⟨⟨3, 3⟩, 2⟩] :=
    tokenize_eq_ok_iff.mpr
      ⟨_, _, .lexeme rfl rfl (.lexeme rfl rfl (.lexeme rfl rfl (.done _))), rfl, rfl, rfl⟩
  have two : tokenize "x" =
      .ok [.leaf (.name "x") ⟨⟨0, 1⟩, 1⟩, .leaf .endMarker ⟨⟨1, 1⟩, 1⟩] :=
    tokenize_eq_ok_iff.mpr ⟨_, _, .lexeme rfl rfl (.done _), rfl, rfl, rfl⟩
  have behind : Shift.past "(\n)" = ⟨4, 2⟩ := rfl
  rw [← behind]
  exact analyzeLines_join _ one two

end Analyzer

end ExprCheck
