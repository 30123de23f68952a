import ExprCheck.Proofs.Prelude.WellFormed
/-! The symbols of a prelude. A declaration of a name stands below the module that was named last
before it. Main statement: if taking in a list of declarations reports no fault, the table gains the
symbols that they stand for, in their order, and each is bound under its local name and under its
full name. -/
namespace ExprCheck

/-- The module that declarations end in, if they start below the one given. -/
def lastModule? (module? : Option String) (ds : List Declaration) : Option String :=
  ds.foldl
    (fun module? d => match d.declared with
      | .inModule path => some path
      | _ => module?)
    module?

/-- The declarations of names, each with the module that it is below: the one given or the last one
named before it. -/
def placed (module? : Option String) : List Declaration → List (Option String × Declaration)
  | [] => []
  | d :: rest =>
      match d.declared with
      | .inModule path => placed (some path) rest
      | _ => (module?, d) :: placed module? rest

theorem placed_cons (module? : Option String) (d : Declaration) (rest : List Declaration) :
    placed module? (d :: rest) = placed module? [d] ++ placed (lastModule? module? [d]) rest := by
  obtain ⟨declared, span⟩ := d
  cases declared <;> rfl

theorem placed_singleton {d : Declaration} {name : String} (named : d.declared.name? = some name)
    (module? : Option String) :
    placed module? [d] = [(module?, d)] ∧ lastModule? module? [d] = module? := by
  obtain ⟨declared, span⟩ := d
  cases declared with
  | inModule => cases named
  | function | struct | var => exact ⟨rfl, rfl⟩

theorem exists_name_of_mem_placed {module? : Option String} {ds : List Declaration}
    {x : Option String × Declaration} (mem : x ∈ placed module? ds) :
    x.2 ∈ ds ∧ ∃ name, x.2.declared.name? = some name := by
  induction ds generalizing module? with
  | nil => cases mem
  | cons d rest ih =>
    obtain ⟨declared, span⟩ := d
    cases declared with
    | inModule path =>
      obtain ⟨among, named⟩ := ih mem
      exact ⟨List.mem_cons_of_mem _ among, named⟩
    | function | struct | var =>
      rcases List.mem_cons.mp mem with rfl | below
      · exact ⟨List.mem_cons_self, _, rfl⟩
      · obtain ⟨among, named⟩ := ih below
        exact ⟨List.mem_cons_of_mem _ among, named⟩

theorem mem_structureNames_iff {module? : Option String} {ds : List Declaration}
    {name full : String} :
    (name, full) ∈ structureNames module? ds ↔
      ∃ below? fields span, (below?, ⟨.struct name fields, span⟩) ∈ placed module? ds ∧
        full = fullName below? name := by
  induction ds generalizing module? with
  | nil => simp [structureNames, placed]
  | cons d rest ih =>
    obtain ⟨declared, span⟩ := d
    cases declared with
    | inModule | function | var => simp [structureNames, placed, ih]
    | struct other fields =>
      simp only [structureNames, placed, List.mem_cons, ih, Prod.mk.injEq, Declaration.mk.injEq,
        Declared.struct.injEq]
      constructor
      · rintro (⟨rfl, rfl⟩ | ⟨below?, fields', span', mem, rfl⟩)
        · exact ⟨module?, fields, span, .inl ⟨rfl, ⟨rfl, rfl⟩, rfl⟩, rfl⟩
        · exact ⟨below?, fields', span', .inr mem, rfl⟩
      · rintro ⟨below?, fields', span', ⟨rfl, ⟨rfl, rfl⟩, rfl⟩ | mem, rfl⟩
        · exact .inl ⟨rfl, rfl⟩
        · exact .inr ⟨below?, fields', span', mem, rfl⟩

/-- The declaration with the number has the name, as its local name or as its full name. -/
def Names (ds : List (Option String × Declaration)) (i : Nat) (name : String) : Prop :=
  ∃ module? d alone, ds[i]? = some (module?, d) ∧ d.declared.name? = some alone ∧
    (name = alone ∨ name = fullName module? alone)

theorem names_append_iff {xs ys : List (Option String × Declaration)} {i : Nat} {name : String} :
    Names (xs ++ ys) i name ↔ Names xs i name ∨ ∃ j, i = xs.length + j ∧ Names ys j name := by
  unfold Names
  by_cases early : i < xs.length
  · rw [List.getElem?_append_left early]
    constructor
    · exact .inl
    · rintro (here | ⟨j, rfl, -⟩)
      · exact here
      · omega
  · have late : xs.length ≤ i := Nat.le_of_not_lt early
    rw [List.getElem?_append_right late]
    constructor
    · exact fun here => .inr ⟨i - xs.length, by omega, here⟩
    · rintro (⟨module?, d, alone, here, -⟩ | ⟨j, rfl, here⟩)
      · rw [List.getElem?_eq_none late] at here
        cases here
      · rwa [Nat.add_sub_cancel_left]

theorem names_singleton_iff {x : Option String × Declaration} {alone : String}
    (named : x.2.declared.name? = some alone) {i : Nat} {name : String} :
    Names [x] i name ↔ i = 0 ∧ (name = alone ∨ name = fullName x.1 alone) := by
  unfold Names
  constructor
  · rintro ⟨module?, d, other, here, named', either⟩
    cases i with
    | succ i => cases here
    | zero =>
      cases here
      cases named.symm.trans named'
      exact ⟨rfl, either⟩
  · rintro ⟨rfl, either⟩
    exact ⟨x.1, x.2, alone, rfl, named, either⟩

namespace ScopeTable

/-- The table has taken in declarations: behind the symbols that it had stand theirs, with the types
that `find` gives to annotations, and they are bound besides what was bound. -/
structure Gains (find : String → Option Ty) (t : ScopeTable)
    (ds : List (Option String × Declaration)) (t' : ScopeTable) : Prop where
  symbols : ∃ added, t'.symbols = t.symbols ++ added ∧
    added.map some = ds.map fun x => x.2.symbol? find x.1
  binds : ∀ name id, t'.localId? name = some id ↔
    t.localId? name = some id ∨ ∃ i, id = t.symbols.length + i ∧ Names ds i name

namespace Gains

variable {find : String → Option Ty} {t t' t'' : ScopeTable}
  {xs ys : List (Option String × Declaration)}

theorem nothing : Gains find t [] t :=
  ⟨⟨[], by simp⟩, fun name id => by simp [Names]⟩

theorem length_symbols (h : Gains find t xs t') :
    t'.symbols.length = t.symbols.length + xs.length := by
  obtain ⟨added, whole, same⟩ := h.symbols
  have counted := congrArg List.length same
  simp only [List.length_map] at counted
  rw [whole, List.length_append, counted]

theorem trans (first : Gains find t xs t') (second : Gains find t' ys t'') :
    Gains find t (xs ++ ys) t'' where
  symbols := by
    obtain ⟨added, whole, same⟩ := first.symbols
    obtain ⟨added', whole', same'⟩ := second.symbols
    refine ⟨added ++ added', ?_, ?_⟩
    · rw [whole', whole, List.append_assoc]
    · rw [List.map_append, List.map_append, same, same']
  binds name id := by
    rw [second.binds, first.binds, first.length_symbols, or_assoc]
    refine or_congr_right ⟨?_, ?_⟩
    · rintro (⟨i, rfl, here⟩ | ⟨j, rfl, there⟩)
      · exact ⟨i, rfl, names_append_iff.mpr (.inl here)⟩
      · exact ⟨xs.length + j, by omega, names_append_iff.mpr (.inr ⟨j, rfl, there⟩)⟩
    · rintro ⟨i, rfl, names⟩
      rcases names_append_iff.mp names with here | ⟨j, rfl, there⟩
      · exact .inl ⟨i, rfl, here⟩
      · exact .inr ⟨j, by omega, there⟩

theorem symbol (h : Gains find t xs t') {i : Nat} {x : Option String × Declaration}
    (here : xs[i]? = some x) :
    t'.symbols[t.symbols.length + i]? = x.2.symbol? find x.1 ∧
      (x.2.symbol? find x.1).isSome := by
  obtain ⟨added, whole, same⟩ := h.symbols
  have there : (added.map some)[i]? = some (x.2.symbol? find x.1) := by
    rw [same, List.getElem?_map, here]
    rfl
  rw [List.getElem?_map] at there
  obtain ⟨s, found, isSome⟩ := Option.map_eq_some_iff.mp there
  rw [whole, List.getElem?_append_right (Nat.le_add_right _ _), Nat.add_sub_cancel_left, found,
    isSome]
  exact ⟨rfl, isSome ▸ rfl⟩

end Gains

end ScopeTable

namespace Prelude

/-- A symbol is added under both its names, or a fault says which of them is taken. -/
theorem addSymbol_gains {pre : Prelude} (h : pre.table.Rooted) (symbol : Symbol) :
    ∃ table new, pre.addSymbol symbol = { pre with table, faults := pre.faults ++ new } ∧
      table.Rooted ∧
      (new = [] → table.symbols = pre.table.symbols ++ [symbol] ∧
        ∀ name id, table.localId? name = some id ↔ pre.table.localId? name = some id ∨
          id = pre.table.symbols.length ∧
            (name = symbol.name ∨ name = fullName pre.module? symbol.name)) := by
  unfold addSymbol
  cases defined : pre.table.define symbol with
  | error f => exact ⟨pre.table, [⟨f.fault, f.span⟩], rfl, h, nofun⟩
  | ok result =>
    obtain ⟨id, table⟩ := result
    obtain ⟨rfl, symbols, free, rooted, binds⟩ := h.of_define defined
    have alone (name : String) (other : Nat) : table.localId? name = some other ↔
        pre.table.localId? name = some other ∨
          other = pre.table.symbols.length ∧ name = symbol.name := by
      rw [binds]
      by_cases same : symbol.name = name
      · simp [← same, free, eq_comm]
      · simp [same, Ne.symm same]
    dsimp only
    rw [qualify_eq_fullName]
    split
    · rename_i same
      refine ⟨table, [], by simp, rooted, fun _ => ⟨symbols, fun name other => ?_⟩⟩
      rw [alone, same, or_self]
    · rename_i differs
      have known : pre.table.symbols.length < table.symbols.length := by simp [symbols]
      cases added : table.addAlias (fullName pre.module? symbol.name) pre.table.symbols.length with
      | error f => exact ⟨table, [⟨f.fault, f.span⟩], rfl, rooted, nofun⟩
      | ok aliased =>
        obtain ⟨symbols', free', rooted', binds'⟩ := rooted.of_addAlias known added
        refine ⟨aliased, [], by simp, rooted', fun _ => ⟨symbols'.trans symbols, ?_⟩⟩
        intro name other
        -- The full name is not the local one, so it was free before that was bound.
        have unbound : pre.table.localId? (fullName pre.module? symbol.name) = none := by
          rwa [binds, if_neg (Ne.symm differs)] at free'
        rw [binds']
        by_cases same : fullName pre.module? symbol.name = name
        · simp [← same, unbound, differs, eq_comm]
        · simp [same, alone, Ne.symm same]

/-- What a part of the defining pass leaves behind. -/
structure Takes (pre : Prelude) (ds : List Declaration) (post : Prelude) : Prop where
  rooted : post.table.Rooted
  structures : post.structures = pre.structures
  module? : post.module? = lastModule? pre.module? ds
  faults : ∃ new, post.faults = pre.faults ++ new ∧
    (new = [] → pre.table.Gains pre.findType? (placed pre.module? ds) post.table)

theorem define_takes {pre : Prelude} (h : pre.table.Rooted) (d : Declaration) :
    pre.Takes [d] (pre.define d) := by
  cases named : d.declared.name? with
  | none =>
    obtain ⟨declared, span⟩ := d
    cases declared with
    | inModule path => exact ⟨h, rfl, rfl, [], by simp [define], fun _ => .nothing⟩
    | function | struct | var => cases named
  | some name =>
    obtain ⟨checked, symbol, ⟨new, rfl, accepted⟩, whole, rfl, stands⟩ :=
      pre.define_eq_addSymbol named
    have before : ({ pre with faults := pre.faults ++ new } : Prelude).table.Rooted := h
    obtain ⟨table, new', added, rooted, gains⟩ := addSymbol_gains before symbol
    obtain ⟨place, below⟩ := placed_singleton named pre.module?
    rw [whole, added]
    refine ⟨rooted, rfl, below.symm, new ++ new', by simp, fun none => ?_⟩
    obtain ⟨rfl, rfl⟩ := List.append_eq_nil_iff.mp none
    obtain ⟨symbols, binds⟩ := gains rfl
    rw [place]
    refine ⟨⟨[symbol], symbols, by simp [stands (accepted.mp rfl)]⟩, fun other id => ?_⟩
    rw [binds]
    refine or_congr_right ⟨?_, ?_⟩
    · rintro ⟨rfl, either⟩
      exact ⟨0, rfl, (names_singleton_iff named).mpr ⟨rfl, either⟩⟩
    · rintro ⟨i, rfl, names⟩
      obtain ⟨rfl, either⟩ := (names_singleton_iff named).mp names
      exact ⟨rfl, either⟩

theorem foldl_define_takes (ds : List Declaration) {pre : Prelude} (h : pre.table.Rooted) :
    pre.Takes ds (ds.foldl define pre) := by
  induction ds generalizing pre with
  | nil => exact ⟨h, rfl, rfl, [], by simp, fun _ => .nothing⟩
  | cons d rest ih =>
    have first := define_takes h d
    have below := ih first.rooted
    have sameTypes : (pre.define d).findType? = pre.findType? := by
      funext text
      simp only [findType?, first.structures]
    refine ⟨below.rooted, below.structures.trans first.structures, ?_, ?_⟩
    · rw [List.foldl_cons, below.module?, first.module?]
      rfl
    · obtain ⟨new, here, gains⟩ := first.faults
      obtain ⟨new', there, gains'⟩ := below.faults
      refine ⟨new ++ new', by rw [List.foldl_cons, there, here, List.append_assoc], fun none => ?_⟩
      obtain ⟨rfl, rfl⟩ := List.append_eq_nil_iff.mp none
      have later := gains' rfl
      rw [sameTypes, first.module?] at later
      rw [placed_cons]
      exact (gains rfl).trans later

theorem extend_takes {pre : Prelude} (h : pre.table.Rooted) (ds : List Declaration) :
    Takes { ds.foldl collect pre with module? := none } ds
      (ds.foldl define { ds.foldl collect pre with module? := none }) := by
  obtain ⟨table, -⟩ := foldl_collect_keeps ds pre
  exact foldl_define_takes ds (table ▸ h)

theorem extend_rooted {pre : Prelude} (h : pre.table.Rooted) (ds : List Declaration) :
    (pre.extend ds).2.table.Rooted :=
  (extend_takes h ds).rooted

/-- A list that is taken in without a fault gives the table the symbols of its declarations. -/
theorem extend_gains {pre : Prelude} (h : pre.table.Rooted) {ds : List Declaration}
    (ok : (pre.extend ds).1 = []) :
    pre.table.Gains (ds.foldl collect pre).findType? (placed none ds) (pre.extend ds).2.table := by
  obtain ⟨table, -⟩ := foldl_collect_keeps ds pre
  obtain ⟨new, faults, gains⟩ := (extend_takes h ds).faults
  have none : (ds.foldl collect pre).faults ++ new = [] := faults.symm.trans ok
  have whole := gains (List.append_eq_nil_iff.mp none).2
  rwa [table] at whole

end Prelude

end ExprCheck
