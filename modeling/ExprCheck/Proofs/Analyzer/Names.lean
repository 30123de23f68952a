import ExprCheck.Proofs.Analyzer.Print
import ExprCheck.Proofs.Analyzer.Shape
import ExprCheck.Proofs.Prelude.Lookup
/-! Declared names as expressions. A declaration may use every name, but an expression reads the
reserved words in its own way. Main statement: written alone, a name of a symbol of a prelude gives
the node of that name with the type of the symbol exactly if none of the names between its dots is
reserved. -/
namespace ExprCheck

namespace Dotted

variable {run : List Token} {parts : List String}

theorem free_of_dottedName? (h : Dotted run parts) {name : String}
    (named : dottedName? run = some name) : ∀ part ∈ parts, isReserved part = false := by
  obtain ⟨parts', spelled, -⟩ := Grammar.dottedName?_eq_some_iff.mp named
  clear named
  induction h generalizing parts' with
  | single =>
    cases spelled with
    | single free => exact List.forall_mem_singleton.mpr free
  | more rest ih =>
    cases spelled with
    | dotted free below => exact List.forall_mem_cons.mpr ⟨free, ih _ below⟩

theorem notParen (h : Dotted run parts) : ∀ t ∈ run, t.isParenGroup = false := by
  induction h with
  | single => exact List.forall_mem_singleton.mpr rfl
  | more rest ih => exact List.forall_mem_cons.mpr ⟨rfl, List.forall_mem_cons.mpr ⟨rfl, ih⟩⟩

theorem atomForm?_eq_none (h : Dotted run parts) (several : 2 ≤ run.length)
    (unnamed : dottedName? run = none) : Noted.atomForm? (noteTokens run) = none := by
  apply atomForm?_of_unnamed several unnamed
  intro head paren name whole isParen named
  have mem : paren ∈ run := by simp [whole]
  rw [h.notParen paren mem] at isParen
  cases isParen

end Dotted

namespace Analyzer

variable {a : Analyzer} {run : List Token} {parts : List String}

theorem analyze_name {symbol : Symbol} (spelled : Grammar.Name run parts)
    (found : a.lookup (".".intercalate parts) = some symbol) :
    (a.analyze none run).Returns
      (.mkName a.track (".".intercalate parts) symbol.valueType) := by
  have node : (a.node (.ofTokens run)).Returns
      (.mkName a.track (".".intercalate parts) symbol.valueType) := by
    rw [spelled.ofTokens, Analyzer.node, nameNode, found]
    exact Analysis.returns_pure _
  exact node.bind (conclude_returns _ _)

theorem free_of_analyze (dotted : Dotted run parts) {log : Log} {mark : Mark} {text : String}
    (made : (a.analyze none run log).1 = some (.name mark text)) :
    ∀ part ∈ parts, isReserved part = false := by
  have node := node_of_analyze made
  cases dotted with
  | @single word place =>
    change (a.node (Form.ofLeaf (.name word) place) log).1 = _ at node
    unfold Form.ofLeaf at node
    dsimp only at node
    split at node
    · cases node
    · split at node
      · cases node
      · rename_i free
        simpa using free
  | @more word place dot rest below tail =>
    have dotted : Dotted (.leaf (.name word) place :: .leaf .dot dot :: rest) (word :: below) :=
      .more tail
    cases named : dottedName? (.leaf (.name word) place :: .leaf .dot dot :: rest) with
    | some name => exact dotted.free_of_dottedName? named
    | none =>
      -- Without an atom the run is split at operators, and no operation is the node of a name.
      have noAtom := dotted.atomForm?_eq_none (by simp) named
      unfold Form.ofTokens Noted.runForm at node
      rw [noAtom] at node
      cases isOperation_of_assemble noAtom (a.node_operationForm _ ▸ node)

end Analyzer

/-- A symbol of a prelude is reached under each of its names exactly if no part of the name is
reserved. -/
theorem analyze_declared_name_iff {source : String} {table : ScopeTable}
    (read : readPrelude source = .ok table) :
    ∃ ds, readDeclarations source = .ok ds ∧ ∀ s ∈ table.symbols, ∃ module? d,
      (module?, d) ∈ placed none ds ∧ d.Introduces module? s ∧
        ∀ name, name = s.name ∨ name = fullName module? s.name → ∀ run, Dotted run (dotParts name) →
          ∀ track log, (Analyzer.analyze ⟨table.lookup?, track⟩ none run log).1 =
            some (.mkName track name s.valueType) ↔ Unreserved name := by
  obtain ⟨ds, declared, tabled⟩ := tabled_of_readPrelude read
  refine ⟨ds, declared, ?_⟩
  intro s mem
  obtain ⟨⟨module?, d⟩, among, stands⟩ := tabled.mem_symbols_iff.mp mem
  obtain ⟨introduces, -⟩ := Declaration.introduces_of_symbol? stands
  refine ⟨module?, d, among, introduces, ?_⟩
  intro name either run dotted track log
  constructor
  · exact Analyzer.free_of_analyze dotted
  · intro free
    have found : table.lookup? name = some s :=
      tabled.lookup?_eq_some_iff.mpr ⟨_, among, ⟨s.name, introduces.name, either⟩, stands⟩
    have spelled := dotted.spells free
    rw [← intercalate_dotParts name] at found
    obtain ⟨new, -, made, -⟩ :=
      Analyzer.analyze_name (a := ⟨table.lookup?, track⟩) spelled found log
    rwa [intercalate_dotParts] at made

/- The name stands below a module. -/
theorem analyze_declared_name_below :
    ∃ table s, readPrelude "module m\nlet a: i32" = .ok table ∧ s ∈ table.symbols ∧
      ∀ track log, (Analyzer.analyze ⟨table.lookup?, track⟩ none (nameTokens "m.a") log).1 =
        some (.mkName track "m.a" s.valueType) := by
  let d : Declaration := ⟨.var "a" (some "i32"), ⟨9, 19⟩⟩
  have declared : readDeclarations "module m\nlet a: i32" =
      .ok [⟨.inModule "m", ⟨0, 8⟩⟩, d] := by with_unfolding_all rfl
  obtain ⟨table, accepted⟩ : ∃ table,
      ScopeTable.ofDeclarations [⟨.inModule "m", ⟨0, 8⟩⟩, d] = .ok table := ⟨_, rfl⟩
  have tabled : Tabled _ table := ⟨accepted, dotless_of_readDeclarations declared⟩
  let s : Symbol := .var "a" (.known (.int .i32)) ⟨9, 19⟩
  have mem : s ∈ table.symbols :=
    tabled.mem_symbols_iff.mpr ⟨(some "m", d), List.mem_cons_self, rfl⟩
  have read := readPrelude_eq_ok_iff.mpr ⟨_, declared, accepted⟩
  obtain ⟨ds, same, names⟩ := analyze_declared_name_iff read
  cases declared.symm.trans same
  obtain ⟨module?, d', among, -, reads⟩ := names s mem
  cases List.mem_singleton.mp among
  have free : Unreserved "m.a" := by decide
  refine ⟨table, s, read, mem, ?_⟩
  intro track log
  exact (reads "m.a" (.inr rfl) _ (nameTokens_dotted "m.a") track log).mpr free

/- A reserved word is declared, but is no expression. -/
theorem not_analyze_reserved_name :
    ∃ table s, readPrelude "let not: i32" = .ok table ∧ s ∈ table.symbols ∧ s.name = "not" ∧
      ∀ track log, (Analyzer.analyze ⟨table.lookup?, track⟩ none (nameTokens "not") log).1 ≠
        some (.mkName track "not" s.valueType) := by
  let d : Declaration := ⟨.var "not" (some "i32"), ⟨0, 12⟩⟩
  have declared : readDeclarations "let not: i32" = .ok [d] := by with_unfolding_all rfl
  obtain ⟨table, accepted⟩ : ∃ table, ScopeTable.ofDeclarations [d] = .ok table := ⟨_, rfl⟩
  have tabled : Tabled [d] table := ⟨accepted, dotless_of_readDeclarations declared⟩
  let s : Symbol := .var "not" (.known (.int .i32)) ⟨0, 12⟩
  have mem : s ∈ table.symbols := tabled.mem_symbols_iff.mpr ⟨(none, d), List.mem_cons_self, rfl⟩
  refine ⟨table, s, readPrelude_eq_ok_iff.mpr ⟨_, declared, accepted⟩, mem, rfl, ?_⟩
  intro track log made
  have reserved : ¬Unreserved "not" := by decide
  exact reserved (Analyzer.free_of_analyze (nameTokens_dotted "not") made)

end ExprCheck
