import ExprCheck.Proofs.Analyzer.Builds
/-! Soundness of the types. Main statement: every node of an expression that an analysis answers
obeys the typing rules, and the expression has the expected type if its type is known. -/
namespace ExprCheck.Analyzer

theorem nodes_obey_of_analyze (a : Analyzer) (expected? : Option Ty) (run : List Token) (log : Log)
    (e : Expr) (made : (a.analyze expected? run log).1 = some e) :
    (∀ n ∈ e.nodes, n.Obeys a.lookup (runLiterals run)) ∧
      ∀ ty, expected? = some ty → e.resultType = .known ty ∨ e.resultType = .undetermined := by
  have result := (analyze_yields expected? run).result made
  exact ⟨result.2.1.obeys, result.2.2⟩

/-- Every name stands for a function from an integer to a Boolean. -/
def predicates : Analyzer :=
  let x : ParamSpec := ⟨some (.int .i32), none, .point 0⟩
  ⟨fun name => some (.function name [("x", x)] (.known .bool) (.point 0)), false⟩

/-- The tokens of `f(1)`. -/
def callOfOne : List Token :=
  [.leaf (.name "f") ⟨.point 0, 1⟩, .group .paren [.leaf (.number "1") ⟨.point 2, 1⟩] ⟨⟨1, 4⟩, 1⟩]

theorem nodes_obey_callOfOne :
    ∃ e, (predicates.analyze (some .bool) callOfOne []).1 = some e ∧
      (∀ n ∈ e.nodes, n.Obeys predicates.lookup (runLiterals callOfOne)) ∧
      (e.resultType = .known .bool ∨ e.resultType = .undetermined) := by
  have succeeds : (predicates.analyze (some .bool) callOfOne []).1.isSome = true := by
    decide +kernel
  obtain ⟨e, made⟩ := Option.isSome_iff_exists.mp succeeds
  have typed := nodes_obey_of_analyze predicates (some .bool) _ [] e made
  exact ⟨e, made, typed.1, typed.2 .bool rfl⟩

end ExprCheck.Analyzer
