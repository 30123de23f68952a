import ExprCheck.Scope
/-! What the open scope binds. A name is bound alone and with a module in front of it, always both
for the same symbol. So a name is free under every module as long as it is free alone. -/
namespace ExprCheck

theorem takeWhile_dotless {cs : List Char} (dotless : '.' ∉ cs) (rest : List Char) :
    (cs ++ rest).takeWhile (· != '.') = cs ++ rest.takeWhile (· != '.') := by
  apply List.takeWhile_append_of_pos
  intro c mem
  rw [bne_iff_ne]
  rintro rfl
  exact dotless mem

theorem unqualified_of_dotless {name : String} (dotless : '.' ∉ name.toList) :
    unqualified name = name := by
  have kept := takeWhile_dotless (fun mem => dotless (List.mem_reverse.mp mem)) []
  rw [List.append_nil, List.takeWhile_nil, List.append_nil] at kept
  unfold unqualified
  rw [kept, List.reverse_reverse, String.ofList_toList]

theorem unqualified_qualified (path : String) {name : String} (dotless : '.' ∉ name.toList) :
    unqualified (path ++ "." ++ name) = name := by
  have chars : (path ++ "." ++ name).toList.reverse =
      name.toList.reverse ++ '.' :: path.toList.reverse := by
    simp
  have kept := takeWhile_dotless (fun mem => dotless (List.mem_reverse.mp mem))
    ('.' :: path.toList.reverse)
  rw [List.takeWhile_cons_of_neg (by decide), List.append_nil] at kept
  unfold unqualified
  rw [chars, kept, List.reverse_reverse, String.ofList_toList]

namespace ScopeTable

variable {t : ScopeTable} {locals : List String}

/-- No scope is around the open one, and it binds names to numbers that symbols have. -/
structure Rooted (t : ScopeTable) : Prop where
  outermost : ∃ scope, t.currentScope? = some scope ∧ scope.parent? = none
  numbered : ∀ name id, t.localId? name = some id → id < t.symbols.length

theorem rooted_empty : empty.Rooted where
  outermost := ⟨_, rfl, rfl⟩
  numbered _ _ none := nomatch none

theorem Rooted.lookupId?_eq (h : t.Rooted) (name : String) : t.lookupId? name = t.localId? name := by
  obtain ⟨scope, current, outermost⟩ := h.outermost
  have there : t.scopes[t.current]? = some scope := current
  unfold lookupId? localId?
  rw [findFrom, there, current]
  simp only [outermost, Option.bind_some]
  cases scope.find? name <;> rfl

theorem localId?_bind (h : t.Rooted) (name other : String) (id : Nat) :
    (t.bind name id).localId? other = if name = other then some id else t.localId? other := by
  obtain ⟨scope, current, -⟩ := h.outermost
  have there : t.scopes[t.current]? = some scope := current
  by_cases same : name = other
  · simp [localId?, currentScope?, bind, there, Scope.find?, same]
  · simp [localId?, currentScope?, bind, there, Scope.find?, same]

theorem Rooted.bind (h : t.Rooted) {id : Nat} (known : id < t.symbols.length) (name : String) :
    (t.bind name id).Rooted where
  outermost := by
    obtain ⟨scope, current, outermost⟩ := h.outermost
    have there : t.scopes[t.current]? = some scope := current
    simp [currentScope?, ScopeTable.bind, there, outermost]
  numbered other found bound := by
    rw [localId?_bind h] at bound
    split at bound
    · cases bound
      exact known
    · exact h.numbered other found bound

theorem Rooted.append (h : t.Rooted) (symbol : Symbol) :
    Rooted { t with symbols := t.symbols ++ [symbol] } where
  outermost := h.outermost
  numbered name id bound := by
    have below := h.numbered name id bound
    simp only [List.length_append, List.length_singleton]
    omega

theorem Rooted.clash?_eq_none_iff (h : t.Rooted) (name : String) (span : Span) :
    t.clash? name span = none ↔ t.localId? name = none := by
  unfold clash? lookupLocal?
  cases found : t.localId? name with
  | none => simp
  | some id =>
    have there := h.numbered name id found
    simp [there]

theorem Rooted.of_define (h : t.Rooted) {symbol : Symbol} {id : Nat} {t' : ScopeTable}
    (defined : t.define symbol = .ok (id, t')) :
    id = t.symbols.length ∧ t'.symbols = t.symbols ++ [symbol] ∧ t.localId? symbol.name = none ∧
      t'.Rooted ∧
      ∀ name, t'.localId? name = if symbol.name = name then some id else t.localId? name := by
  unfold ScopeTable.define at defined
  split at defined
  · cases defined
  · rename_i free
    cases defined
    have longer := h.append symbol
    exact ⟨rfl, rfl, (h.clash?_eq_none_iff _ _).mp free,
      longer.bind (by simp) symbol.name, fun name => localId?_bind longer symbol.name name _⟩

theorem Rooted.of_addAlias (h : t.Rooted) {full : String} {id : Nat} {t' : ScopeTable}
    (known : id < t.symbols.length) (added : t.addAlias full id = .ok t') :
    t'.symbols = t.symbols ∧ t.localId? full = none ∧ t'.Rooted ∧
      ∀ name, t'.localId? name = if full = name then some id else t.localId? name := by
  unfold ScopeTable.addAlias at added
  rw [List.getElem?_eq_getElem known] at added
  dsimp only at added
  split at added
  · cases added
  · rename_i free
    cases added
    exact ⟨rfl, (h.clash?_eq_none_iff _ _).mp free, h.bind known full,
      fun name => localId?_bind h full name id⟩

/-- The open scope binds the local names given, each to the number of a symbol, and besides them
only such names with a module in front. -/
structure Binds (t : ScopeTable) (locals : List String) : Prop extends t.Rooted where
  bound : ∀ name ∈ locals, (t.localId? name).isSome
  only : ∀ name id, t.localId? name = some id → unqualified name ∈ locals

theorem binds_empty : empty.Binds [] where
  toRooted := rooted_empty
  bound _ mem := nomatch mem
  only _ _ none := nomatch none

theorem Binds.congr (h : t.Binds locals) {locals' : List String}
    (same : ∀ name, name ∈ locals' ↔ name ∈ locals) : t.Binds locals' where
  toRooted := h.toRooted
  bound name mem := h.bound name ((same name).mp mem)
  only name id found := (same _).mpr (h.only name id found)

theorem Binds.free (h : t.Binds locals) {name : String} (free : unqualified name ∉ locals) :
    t.localId? name = none := by
  cases found : t.localId? name with
  | none => rfl
  | some id => exact absurd (h.only name id found) free

theorem Binds.bind (h : t.Binds locals) {name : String} {id : Nat} {locals' : List String}
    (known : id < t.symbols.length) (more : ∀ l ∈ locals, l ∈ locals')
    (new : ∀ l ∈ locals', l = name ∨ l ∈ locals) (own : unqualified name ∈ locals') :
    (t.bind name id).Binds locals' := by
  have answers := fun other => localId?_bind h.toRooted name other id
  refine ⟨h.toRooted.bind known name, ?_, ?_⟩
  · intro other mem
    rw [answers]
    split
    · rfl
    · rename_i differs
      rcases new other mem with rfl | old
      · exact absurd rfl differs
      · exact h.bound other old
  · intro other found bound
    rw [answers] at bound
    split at bound
    · rename_i same
      exact same ▸ own
    · exact more _ (h.only other found bound)

theorem Binds.define_error (h : t.Binds locals) {symbol : Symbol} (mem : symbol.name ∈ locals) :
    ∃ fault, t.define symbol = .error fault := by
  cases clash : t.clash? symbol.name symbol.span with
  | none =>
    have bound := h.bound _ mem
    rw [(h.clash?_eq_none_iff _ _).mp clash] at bound
    cases bound
  | some fault => exact ⟨fault, by simp only [ScopeTable.define, clash]⟩

theorem Binds.define_ok (h : t.Binds locals) {symbol : Symbol}
    (dotless : '.' ∉ symbol.name.toList) (new : symbol.name ∉ locals) :
    ∃ id t', t.define symbol = .ok (id, t') ∧ t'.Binds (symbol.name :: locals) ∧
      t'.symbols[id]? = some symbol ∧
      ∀ name, name ≠ symbol.name → t.localId? name = none → t'.localId? name = none := by
  have alone := unqualified_of_dotless dotless
  have free := h.free (alone.symm ▸ new)
  have noClash := (h.clash?_eq_none_iff symbol.name symbol.span).mpr free
  let longer : ScopeTable := { t with symbols := t.symbols ++ [symbol] }
  have binds : longer.Binds locals := ⟨h.toRooted.append symbol, h.bound, h.only⟩
  refine ⟨t.symbols.length, longer.bind symbol.name t.symbols.length, ?_, ?_, ?_, ?_⟩
  · simp only [ScopeTable.define, noClash, longer]
  · refine binds.bind (by simp [longer]) (fun l old => List.mem_cons_of_mem _ old)
      (fun l new => List.mem_cons.mp new) ?_
    rw [alone]
    exact List.mem_cons_self
  · simp [ScopeTable.bind, longer]
  · intro name other none
    rw [localId?_bind binds.toRooted, if_neg other.symm]
    exact none

theorem Binds.addAlias (h : t.Binds locals) {full : String} {id : Nat} {symbol : Symbol}
    (known : t.symbols[id]? = some symbol) (free : t.localId? full = none)
    (own : unqualified full ∈ locals) :
    ∃ t', t.addAlias full id = .ok t' ∧ t'.Binds locals := by
  have noClash := (h.clash?_eq_none_iff full symbol.span).mpr free
  refine ⟨t.bind full id, by simp only [ScopeTable.addAlias, known, noClash], ?_⟩
  have below : id < t.symbols.length := (List.getElem?_eq_some_iff.mp known).1
  exact h.bind below (fun l old => old) (fun l old => .inr old) own

end ScopeTable

end ExprCheck
