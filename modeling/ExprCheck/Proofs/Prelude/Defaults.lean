import ExprCheck.Proofs.Literal.Number
import ExprCheck.Proofs.Prelude.Lookup
import ExprCheck.Proofs.Token.Grouping
/-! Default values and expressions. A default value does not go through tokens and forms: its
lexemes are read as a literal, with a minus sign put in front of the text of a number, and the
literal becomes a node. Main statement: in a prelude that loads, the default that is written as one
lexeme is the node that this lexeme is as an expression, whatever the symbols are, and a negative
number has the type of the negation. -/
namespace ExprCheck

theorem Literal.ofLeaf_of_lexemes {value : Literal} {l : Lexeme} {leaf : Leaf}
    (written : value.lexemes = [l]) (kept : l.leaf? = some leaf) (place : Place) :
    Form.ofLeaf leaf place = .literal value := by
  cases value with
  | str raw =>
    cases written
    cases kept
    rfl
  | number raw =>
    simp only [Literal.lexemes] at written
    split at written
    · cases written
    · cases written
      cases kept
      rfl
  | bool b =>
    cases b <;> cases written <;> cases kept <;> rfl

theorem Literal.eq_of_lexemes_negative {value : Literal} {raw : String}
    (written : value.lexemes = [.op "-", .number raw]) : value = .number ("-" ++ raw) := by
  cases value with
  | str => cases written
  | number text =>
    simp only [Literal.lexemes] at written
    split at written
    · rename_i digits chars
      cases written
      rw [Literal.number.injEq]
      apply String.toList_injective
      simp [chars]
    · cases written
  | bool b => cases b <;> cases written

namespace Analyzer

variable (a : Analyzer)

theorem analyze_literal {leaf : Leaf} {place : Place} {value : Literal}
    (literal : Form.ofLeaf leaf place = .literal value) :
    a.analyze none [.leaf leaf place] = pure (.ofLiteral a.track value) := by
  have form : Form.ofTokens [.leaf leaf place] = .literal value := literal
  rw [analyze, form]
  rfl

theorem applyUnary_number (raw : String) (place : Place) :
    a.applyUnary .neg place (.ofLiteral a.track (.number raw)) =
      pure (.mkUnary a.track .neg (.ofLiteral a.track (.number raw))
        (.known (Ty.ofNumber raw))) := by
  have known : (Expr.ofLiteral a.track (.number raw)).resultType = .known (Ty.ofNumber raw) := rfl
  have result : UnaryOp.neg.result? (Ty.ofNumber raw) = some (Ty.ofNumber raw) := by
    rcases Ty.ofNumber_numeric raw with ⟨ty, numeric⟩ | ⟨ty, numeric⟩ <;> rw [numeric] <;> rfl
  simp only [applyUnary, known, result]

theorem analyze_negative (raw : String) (sign own : Place) :
    a.analyze none [.leaf (.op "-") sign, .leaf (.number raw) own] =
      pure (.mkUnary a.track .neg (.ofLiteral a.track (.number raw))
        (.known (Ty.ofNumber raw))) := by
  have form : Form.ofTokens [.leaf (.op "-") sign, .leaf (.number raw) own] =
      .operation (.mk [(.neg, sign)] (.literal (.number raw))) [] := rfl
  have operand : a.operandNode (.mk [(.neg, sign)] (.literal (.number raw))) =
      a.applyUnary .neg sign (.ofLiteral a.track (.number raw)) := rfl
  rw [analyze, form, node, operand, applyUnary_number]
  rfl

end Analyzer

theorem get?_paramList {find : String → Option Ty} {ps : List Param}
    (once : (ps.map Param.name).Nodup) {p : Param} (mem : p ∈ ps) :
    (paramList find ps).get? p.name = some (p.spec find) := by
  induction ps with
  | nil => cases mem
  | cons q rest ih =>
    obtain ⟨new, below⟩ := List.nodup_cons.mp once
    rcases List.mem_cons.mp mem with rfl | later
    · simp [paramList, ParamList.get?]
    · -- No two parameters have one name.
      have other : q.name ≠ p.name := fun same => new (same ▸ List.mem_map_of_mem later)
      have found := ih below later
      simpa [paramList, ParamList.get?, other] using found

/-- The default value is the node that its lexeme is as an expression. If it is written as a minus
sign and a number, it has at least the type of that expression. -/
structure ParamSpec.DefaultsLike (written : List Lexeme) (spec : ParamSpec) : Prop where
  token : ∀ l leaf, written = [.op "=", l] → l.leaf? = some leaf →
    ∃ node, spec.default? = some node ∧ ∀ lookup place,
      Analyzer.analyze ⟨lookup, false⟩ none [.leaf leaf place] = pure node
  negative : ∀ raw, written = [.op "=", .op "-", .number raw] →
    ∃ node, spec.default? = some node ∧ ∀ lookup track sign own, ∃ negation,
      Analyzer.analyze ⟨lookup, track⟩ none
        [.leaf (.op "-") sign, .leaf (.number raw) own] = pure negation ∧
      negation.resultType = node.resultType

theorem Param.defaultsLike (p : Param) (find : String → Option Ty) :
    (p.spec find).DefaultsLike (defaultLexemes p.default?) := by
  obtain ⟨name, ty?, default?, span⟩ := p
  cases default? with
  | none => exact ⟨nofun, nofun⟩
  | some value =>
    refine ⟨?_, ?_⟩
    · intro l leaf written kept
      have alone : value.lexemes = [l] := List.cons.inj written |>.2
      refine ⟨.ofLiteral false value, rfl, fun lookup place => ?_⟩
      exact Analyzer.analyze_literal ⟨lookup, false⟩ (value.ofLeaf_of_lexemes alone kept place)
    · intro raw written
      obtain rfl := value.eq_of_lexemes_negative (List.cons.inj written |>.2)
      refine ⟨.ofLiteral false (.number ("-" ++ raw)), rfl, fun lookup track sign own => ?_⟩
      refine ⟨_, Analyzer.analyze_negative ⟨lookup, track⟩ raw sign own, ?_⟩
      have type : (Expr.ofLiteral false (.number ("-" ++ raw))).resultType =
          .known (Ty.ofNumber ("-" ++ raw)) := rfl
      rw [type, Ty.ofNumber_minus]
      rfl

/-- In a prelude that loads, every default value of a parameter or field is the node that an
analysis of its lexeme gives under any symbols, without a finding; and that of a number behind a
minus sign has the type that an analysis of these two lexemes gives. -/
theorem defaults_of_readPrelude {source : String} {table : ScopeTable}
    (loaded : readPrelude source = .ok table) :
    ∃ lexemes ds, Lexeme.scan source = .ok lexemes ∧ readDeclarations source = .ok ds ∧
      Spelled ds ((meaningful lexemes).map Spanned.value) ∧
      ∀ x ∈ placed none ds, ∀ name, Declares x name → ∃ s, table.lookup? name = some s ∧
        ∀ p ∈ x.2.declared.params, ∃ spec, s.params.get? p.name = some spec ∧
          spec.DefaultsLike (defaultLexemes p.default?) := by
  obtain ⟨ds, read, tabled⟩ := tabled_of_readPrelude loaded
  obtain ⟨lexemes, scanned⟩ := exists_scan_of_readDeclarations read
  refine ⟨lexemes, ds, scanned, read, spelled_of_readDeclarations scanned read, ?_⟩
  intro x mem name declares
  obtain ⟨among, own, named⟩ := exists_name_of_mem_placed mem
  obtain ⟨i, here⟩ := List.mem_iff_getElem?.mp mem
  obtain ⟨s, stands⟩ := Option.isSome_iff_exists.mp (tabled.gains.symbol here).2
  obtain ⟨-, params, -⟩ := Declaration.introduces_of_symbol? stands
  refine ⟨s, tabled.lookup?_eq_some_iff.mpr ⟨x, mem, declares, stands⟩, fun p listed => ?_⟩
  refine ⟨p.spec (typeOf ds), ?_, p.defaultsLike (typeOf ds)⟩
  rw [params]
  exact get?_paramList (tabled.wellFormed.params x.2 among) listed

/- A field below a module, and a character of two bytes. -/
theorem defaults_of_readPrelude_char :
    ∃ table s spec node,
      readPrelude "module m\nstruct s(x: char = c'ß',)" = .ok table ∧
      table.lookup? "m.s" = some s ∧ s.params.get? "x" = some spec ∧ spec.default? = some node ∧
      ∀ lookup place,
        Analyzer.analyze ⟨lookup, false⟩ none [.leaf (.str "c'ß'") place] = pure node := by
  let p : Param := ⟨"x", some "char", some (.str "c'ß'"), ⟨18, 33⟩⟩
  let d : Declaration := ⟨.struct "s" [p], ⟨9, 35⟩⟩
  have declared : readDeclarations "module m\nstruct s(x: char = c'ß',)" =
      .ok [⟨.inModule "m", ⟨0, 8⟩⟩, d] := by with_unfolding_all rfl
  obtain ⟨table, accepted⟩ : ∃ table,
      ScopeTable.ofDeclarations [⟨.inModule "m", ⟨0, 8⟩⟩, d] = .ok table := ⟨_, rfl⟩
  have loaded := readPrelude_eq_ok_iff.mpr ⟨_, declared, accepted⟩
  obtain ⟨lexemes, ds, -, read, -, defaults⟩ := defaults_of_readPrelude loaded
  cases declared.symm.trans read
  obtain ⟨s, found, params⟩ :=
    defaults (some "m", d) (List.mem_singleton_self _) "m.s" ⟨"s", rfl, .inr rfl⟩
  obtain ⟨spec, own, like⟩ := params p (List.mem_singleton_self _)
  obtain ⟨node, default, same⟩ := like.token (.str "c'ß'") (.str "c'ß'") rfl rfl
  exact ⟨table, s, spec, node, loaded, found, own, default, same⟩

end ExprCheck
