import ExprCheck.Proofs.Analyzer.Located
import ExprCheck.Proofs.Program.Spans
/-! The diagnostics of lines. What a line adds to the log does not depend on the lines before it,
and it is logged at tokens of the line. Main statement: the diagnostics of a source are those of its
lines, one block behind the other, and none of them leaves its line. -/
namespace ExprCheck

/-- A line of an outcome, and the diagnostics that the analysis of its tokens has added, whatever
was logged before. Each of them has the file, and the span and the line of a token in the line. -/
structure Analyzer.Recorded (a : Analyzer) (path : String) (run : List Token) (line : LineResult)
    (block : Diagnostics) : Prop where
  outcome : line = lineResult run (a.analyze none run []).1
  added : ∀ log : Log, (a.analyze none run log).2.diagnostics path = log.diagnostics path ++ block
  file : ∀ d ∈ block, d.file? = some path
  token : ∀ d ∈ block, ∃ t u : Token, u ∈ run ∧ t.Within u ∧ d.span? = some t.place.span ∧
    d.line? = some t.place.line
  contained : ∀ d ∈ block, ∃ s ∈ d.span?, line.span.Contains s

namespace Analyzer

theorem exists_token_of_finding (a : Analyzer) {run : List Token} (some : run ≠ []) :
    ∀ f ∈ (a.analyze none run []).2,
      ∃ t u : Token, u ∈ run ∧ t.Within u ∧ f.place? = .some t.place := by
  intro f logged
  have own : ∀ u ∈ run, u.Located fun p => ∃ t u : Token, u ∈ run ∧ t.Within u ∧ p = t.place :=
    fun u mem t inside => ⟨t, u, mem, inside, rfl⟩
  obtain ⟨new, appended, located⟩ := a.analyze_locates none some own []
  rw [appended] at logged
  obtain ⟨p, found, t, u, mem, inside, rfl⟩ := located f logged
  exact ⟨t, u, mem, inside, found⟩

theorem recorded_of_tokenLines (a : Analyzer) {path source : String} {ts run : List Token}
    (named : path ≠ "") (read : tokenize source = .ok ts) (line : run ∈ tokenLines ts) :
    a.Recorded path run (lineResult run (a.analyze none run []).1)
      ((a.analyze none run []).2.diagnostics path) := by
  have tokens := a.exists_token_of_finding (ne_nil_of_mem_tokenLines line)
  have file : (if path.isEmpty then none else some path) = some path := by simp [named]
  refine ⟨rfl, fun log => ?_, List.forall_mem_map.mpr fun f _ => file,
    List.forall_mem_map.mpr fun f logged => ?_, List.forall_mem_map.mpr fun f logged => ?_⟩
  · rw [(a.analyze_determined none run).eq_of_empty log, Log.diagnostics_append]
  · obtain ⟨t, u, mem, inside, place⟩ := tokens f logged
    exact ⟨t, u, mem, inside, by simp [Finding.diagnostic, place],
      by simp [Finding.diagnostic, place]⟩
  · obtain ⟨t, u, mem, inside, place⟩ := tokens f logged
    refine ⟨t.place.span, by simp [Finding.diagnostic, place], ?_⟩
    exact (encloses_runSpan read line).contains t u mem inside

/-- With a file, the diagnostics of a source that has tokens are blocks, one for each line, in the
order of the lines. Each diagnostic has the file, a line and a span, which the span of the line
contains that it was recorded for. -/
theorem diagnostics_stay_on_lines (a : Analyzer) (path source : String) (ts : List Token)
    (named : path ≠ "") (read : tokenize source = .ok ts) :
    ∃ o, a.analyzeLines source = .ok o ∧ ∃ parts : List (LineResult × Diagnostics),
      o.lines = parts.map Prod.fst ∧ o.log.diagnostics path = parts.flatMap Prod.snd ∧
      List.Forall₂ (fun run part => a.Recorded path run part.1 part.2) (tokenLines ts) parts := by
  refine ⟨_, a.analyzeLines_of_tokenize read, (tokenLines ts).map fun run =>
    (lineResult run (a.analyze none run []).1, (a.analyze none run []).2.diagnostics path),
    ?_, ?_, ?_⟩
  · rw [analyzeRuns_eq, List.map_map]
    rfl
  · rw [analyzeRuns_eq, List.nil_append, List.flatMap_map]
    exact List.map_flatMap
  · refine List.forall₂_map_right_iff.mpr (List.forall₂_same.mpr fun run line => ?_)
    exact a.recorded_of_tokenLines named read line

/- The first line has a fault in its brackets, and the second one at its last token. -/
theorem diagnostics_stay_on_lines_twoFaults :
    "p" ≠ "" ∧ ∃ ts, tokenize "[x]\n1+" = .ok ts ∧
      ∃ o, analyzeLines ⟨fun _ => none, false⟩ "[x]\n1+" = .ok o ∧
        ∃ parts : List (LineResult × Diagnostics),
          o.lines = parts.map Prod.fst ∧ o.log.diagnostics "p" = parts.flatMap Prod.snd ∧
          List.Forall₂ (fun run part => Recorded ⟨fun _ => none, false⟩ "p" run part.1 part.2)
            (tokenLines ts) parts := by
  have named : "p" ≠ "" := by decide
  have read : tokenize "[x]\n1+" = .ok
      [.group .square [.leaf (.name "x") ⟨⟨1, 2⟩, 1⟩] ⟨⟨0, 3⟩, 1⟩, .leaf .newline ⟨⟨3, 4⟩, 1⟩,
        .leaf (.number "1") ⟨⟨4, 5⟩, 2⟩, .leaf (.op "+") ⟨⟨5, 6⟩, 2⟩,
        .leaf .endMarker ⟨⟨6, 6⟩, 2⟩] := by
    with_unfolding_all rfl
  exact ⟨named, _, read, diagnostics_stay_on_lines _ _ _ _ named read⟩

end Analyzer

end ExprCheck
