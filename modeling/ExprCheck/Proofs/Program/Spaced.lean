import ExprCheck.Program
import ExprCheck.Proofs.Analyzer.Places
import ExprCheck.Proofs.Analyzer.Shape
import ExprCheck.Proofs.Analyzer.Values
import ExprCheck.Proofs.Token.Joined
/-! Single expressions over several lines. Line ends are dropped from a single expression, but only
after every line has been read on its own. Main statement: with spaces for the line feeds a source
without comments gives the same expression and is told the same, unless there are several lines and
one has a comma outside all brackets; then it gives no expression that it gave before. -/
namespace ExprCheck

namespace Outcome

/-- The same expressions, and diagnostics that tell the same at whatever places. -/
structure Alike (o o' : Outcome) : Prop where
  exprs : o.lines.map LineResult.expr? = o'.lines.map LineResult.expr?
  told : ∀ path, (o.log.diagnostics path).map (fun d => (d.level, d.message)) =
    (o'.log.diagnostics path).map fun d => (d.level, d.message)

theorem mem_exprs_single {run : List Token} {expr? : Option Expr} {log : Log} {e : Expr} :
    e ∈ exprs ⟨[lineResult run expr?], log⟩ ↔ expr? = some e := by
  cases expr? <;> simp [exprs, lineResult, eq_comm]

end Outcome

theorem Log.told_mapPlaces (f : Place → Place) (log : Log) (path : String) :
    ((log.mapPlaces f).diagnostics path).map (fun d => (d.level, d.message)) =
      (log.diagnostics path).map fun d => (d.level, d.message) := by
  simp only [Log.diagnostics, Log.mapPlaces, List.map_map]
  rfl

namespace Analyzer

theorem analyzeText_of_tokenize (a : Analyzer) (expected? : Option Ty) {source : String}
    {ts : List Token} (tokens : tokenize source = .ok ts) :
    a.analyzeText expected? source =
      .ok ⟨[lineResult (wholeRun ts) (a.analyze expected? (wholeRun ts) []).1],
        (a.analyze expected? (wholeRun ts) []).2⟩ := by
  unfold analyzeText
  rw [tokens]
  rfl

/-- A source without comments and the same source with spaces for its line feeds are both analysed
as single expressions. They give the same expression and are told the same, if there is one line at
most or no line has a comma outside all brackets. Otherwise each such line is a tuple of its own and
the first source gives an operation on tuples or nothing, while the other one is one tuple. -/
theorem analyzeText_spaced (a : Analyzer) (expected? : Option Ty) {source : String}
    {ls : List (Spanned Lexeme)} {ts : List Token} (scanned : Lexeme.scan source = .ok ls)
    (noComment : ∀ l ∈ ls, ∀ text, l.value ≠ .comment text) (tokens : tokenize source = .ok ts) :
    ∃ o o', a.analyzeText expected? source = .ok o ∧
      a.analyzeText expected? (spaced source) = .ok o' ∧
      (Unsplit ts → o.Alike o') ∧
      (¬ Unsplit ts →
        (∀ e ∈ o.exprs, e.isOperation = true) ∧ ∀ e ∈ o'.exprs, e.isTuple = true) := by
  obtain ⟨us, tokens', same, joined⟩ := wholeRun_spaced scanned noComment tokens
  refine ⟨_, _, a.analyzeText_of_tokenize expected? tokens,
    a.analyzeText_of_tokenize expected? tokens', ?_, ?_⟩
  · intro unsplit
    have mirrors := a.analyze_mirrors expected? (wholeRun ts) (f := oneLine.place) []
    have mirrored : a.analyze expected? (wholeRun us) [] =
        ((a.analyze expected? (wholeRun ts) []).1,
          (a.analyze expected? (wholeRun ts) []).2.mapPlaces oneLine.place) := by
      rw [same unsplit]
      exact mirrors.trans (by rw [Option.map_id_apply])
    rw [mirrored]
    exact ⟨rfl, fun path => (Log.told_mapPlaces _ _ path).symm⟩
  · intro split
    constructor
    · intro e given
      obtain ⟨several, items, place, mem⟩ := tuple_mem_of_not_unsplit split
      exact isOperation_of_analyze mem several (Outcome.mem_exprs_single.mp given)
    · intro e given
      obtain ⟨items, place, one⟩ := joined split
      rw [one] at given
      exact isTuple_of_analyze (Outcome.mem_exprs_single.mp given)

/- The line feed stands outside all brackets, but there is no comma. -/
theorem analyzeText_spaced_sum :
    ∃ o o', nameless.analyzeText none "1\n+ 2" = .ok o ∧
      nameless.analyzeText none "1 + 2" = .ok o' ∧ o.Alike o' := by
  let run : List Token := [.leaf (.number "1") ⟨⟨0, 1⟩, 1⟩, .leaf .newline ⟨⟨1, 2⟩, 1⟩,
    .leaf (.op "+") ⟨⟨2, 3⟩, 2⟩, .leaf (.number "2") ⟨⟨4, 5⟩, 2⟩, .leaf .endMarker ⟨⟨5, 5⟩, 2⟩]
  have scanned : Lexeme.scan "1\n+ 2" = .ok [⟨.number "1", ⟨0, 1⟩⟩, ⟨.newline, ⟨1, 2⟩⟩,
      ⟨.op "+", ⟨2, 3⟩⟩, ⟨.number "2", ⟨4, 5⟩⟩] := by
    with_unfolding_all rfl
  have tokens : tokenize "1\n+ 2" = .ok run := by with_unfolding_all rfl
  have text : spaced "1\n+ 2" = "1 + 2" := by with_unfolding_all rfl
  have noComma : ∀ line ∈ tokenLines run, ∀ items place, Token.tuple items place ∉ line := by
    simp [run, tokenLines, Token.endsLine]
  obtain ⟨o, o', first, second, alike, -⟩ :=
    nameless.analyzeText_spaced none scanned (by simp) tokens
  exact ⟨o, o', first, text ▸ second, alike (.inr noComma)⟩

/-- A line feed behind a comma does mean something: the text on one line is a tuple of two items,
and the source is a tuple of one item with another expression behind it, which is no expression. -/
theorem not_alike_spaced_comma :
    ∃ ls ts o o', Lexeme.scan "1,\n2" = .ok ls ∧ (∀ l ∈ ls, ∀ text, l.value ≠ .comment text) ∧
      tokenize "1,\n2" = .ok ts ∧ nameless.analyzeText none "1,\n2" = .ok o ∧
      nameless.analyzeText none (spaced "1,\n2") = .ok o' ∧ ¬ o.Alike o' := by
  let one : Token := .leaf (.number "1") ⟨⟨0, 1⟩, 1⟩
  let apart : List Token := [.tuple [[one], []] ⟨⟨0, 2⟩, 1⟩, .leaf .newline ⟨⟨2, 3⟩, 1⟩,
    .leaf (.number "2") ⟨⟨3, 4⟩, 2⟩, .leaf .endMarker ⟨⟨4, 4⟩, 2⟩]
  let whole : List Token := [.tuple [[one], [.leaf (.number "2") ⟨⟨3, 4⟩, 1⟩]] ⟨⟨0, 4⟩, 1⟩,
    .leaf .endMarker ⟨⟨4, 4⟩, 1⟩]
  have scanned : Lexeme.scan "1,\n2" = .ok [⟨.number "1", ⟨0, 1⟩⟩, ⟨.comma, ⟨1, 2⟩⟩,
      ⟨.newline, ⟨2, 3⟩⟩, ⟨.number "2", ⟨3, 4⟩⟩] := by
    with_unfolding_all rfl
  have tokens : tokenize "1,\n2" = .ok apart := by with_unfolding_all rfl
  have tokens' : tokenize (spaced "1,\n2") = .ok whole := by with_unfolding_all rfl
  have nothing : (nameless.analyze none (wholeRun apart) []).1.isSome = false := by decide +kernel
  have tuple : (nameless.analyze none (wholeRun whole) []).1.isSome = true := by decide +kernel
  refine ⟨_, _, _, _, scanned, by simp, tokens, nameless.analyzeText_of_tokenize none tokens,
    nameless.analyzeText_of_tokenize none tokens', fun alike => ?_⟩
  have same : (nameless.analyze none (wholeRun apart) []).1 =
      (nameless.analyze none (wholeRun whole) []).1 := List.singleton_inj.mp alike.exprs
  rw [← same, nothing] at tuple
  cases tuple

end Analyzer

end ExprCheck
