import ExprCheck.Proofs.Scope.Bindings
/-! The numbers in a table of scopes. Scopes and symbols are known by their numbers alone, and a
scope keeps its numbers after it was left. Main statement: whatever has been done to a table, every
number in it is that of a scope or of a symbol. So no step and no look-up meets a number that
nothing has, and a walk outwards ends. -/
namespace ExprCheck

/-- The scope stands at its own number in a table of so many symbols. The first scope is the global
one, and around every other stands an older one. -/
structure Scope.StandsAt (s : Scope) (number symbols : Nat) : Prop where
  own : s.id = number
  global : number = 0 → s.parent? = none
  around : number ≠ 0 → ∃ parent, s.parent? = some parent ∧ parent < number
  bound : ∀ b ∈ s.bindings, b.2 < symbols

theorem Scope.StandsAt.older {s : Scope} {number symbols parent : Nat}
    (h : s.StandsAt number symbols) (around : s.parent? = some parent) : parent < number := by
  have inside : number ≠ 0 := fun global => nomatch around.symm.trans (h.global global)
  obtain ⟨parent', same, older⟩ := h.around inside
  cases around.symm.trans same
  exact older

namespace ScopeTable

/-- The open scope is one of the table, and all scopes stand at their numbers, those that were left
too. -/
structure Numbered (t : ScopeTable) : Prop where
  current : t.current < t.scopes.length
  scopes : ∀ number (s : Scope), t.scopes[number]? = some s → s.StandsAt number t.symbols.length

/-! ## Looking numbers up -/

/- Each step as it uses numbers: every number is looked up where it is met, and `none` says that
nothing has it. An alias alone asks first whether its number is that of a symbol. -/
namespace Strict

def exit (t : ScopeTable) : Option ScopeTable := do
  let scope ← t.scopes[t.current]?
  match scope.parent? with
  | some parent => return { t with current := parent }
  | none => return t

def clash? (t : ScopeTable) (name : String) (span : Span) : Option (Option SpannedFault) := do
  let scope ← t.scopes[t.current]?
  match scope.find? name with
  | none => return none
  | some id =>
      let previous ← t.symbols[id]?
      return some ⟨.duplicate name previous.span, span⟩

def bindName (t : ScopeTable) (name : String) (id : Nat) : Option ScopeTable := do
  let scope ← t.scopes[t.current]?
  let bound := { scope with bindings := (name, id) :: scope.bindings }
  return { t with scopes := t.scopes.set t.current bound }

def define (t : ScopeTable) (symbol : Symbol) :
    Option (Except SpannedFault (Nat × ScopeTable)) := do
  match ← clash? t symbol.name symbol.span with
  | some fault => return .error fault
  | none =>
      let id := t.symbols.length
      return .ok (id, ← bindName { t with symbols := t.symbols ++ [symbol] } symbol.name id)

def addAlias (t : ScopeTable) (name : String) (id : Nat) :
    Option (Except SpannedFault ScopeTable) :=
  match t.symbols[id]? with
  | none => return .ok t
  | some symbol => do
      match ← clash? t name symbol.span with
      | some fault => return .error fault
      | none => return .ok (← bindName t name id)

/-- From a scope outwards a name is found, or it is not found in the global scope. The walk goes to
whatever parent a scope has; one that goes round for ever or to a number that no scope has finds no
answer. -/
inductive Walk (scopes : List Scope) (name : String) : Nat → Option Nat → Prop
  | found {number symbol : Nat} {s : Scope} (here : scopes[number]? = some s)
      (bound : s.find? name = some symbol) : Walk scopes name number (some symbol)
  | global {number : Nat} {s : Scope} (here : scopes[number]? = some s)
      (free : s.find? name = none) (outermost : s.parent? = none) : Walk scopes name number none
  | outwards {number parent : Nat} {s : Scope} {answer : Option Nat}
      (here : scopes[number]? = some s) (free : s.find? name = none)
      (around : s.parent? = some parent) (rest : Walk scopes name parent answer) :
      Walk scopes name number answer

end Strict

/-- Every number that a step or a look-up meets is that of a scope or a symbol of the table, and
every walk outwards ends. -/
structure InRange (t : ScopeTable) : Prop where
  exit : Strict.exit t = some t.exit
  define : ∀ symbol, Strict.define t symbol = some (t.define symbol)
  addAlias : ∀ name id, Strict.addAlias t name id = some (t.addAlias name id)
  current : t.currentScope?.isSome
  global : t.scopes.head?.isSome
  walk : ∀ name, Strict.Walk t.scopes name t.current (t.lookupId? name)
  found : ∀ name id, t.lookupId? name = some id → id < t.symbols.length

variable {t : ScopeTable}

/-! ## Steps -/

theorem numbered_empty : empty.Numbered where
  current := Nat.one_pos
  scopes number s here := by
    cases number with
    | zero =>
      cases here
      exact ⟨rfl, fun _ => rfl, fun other => absurd rfl other, nofun⟩
    | succ number => cases here

namespace Numbered

theorem exists_current (h : t.Numbered) :
    ∃ s, t.scopes[t.current]? = some s ∧ s.StandsAt t.current t.symbols.length := by
  have here := List.getElem?_eq_getElem h.current
  exact ⟨_, here, h.scopes _ _ here⟩

theorem enter (h : t.Numbered) (kind : ScopeKind) : (t.enter kind).Numbered where
  current := by simp [ScopeTable.enter]
  scopes number s here := by
    rw [ScopeTable.enter, List.getElem?_append] at here
    split at here
    · exact h.scopes number s here
    · rename_i behind
      obtain ⟨last, rfl⟩ : number - t.scopes.length = 0 ∧ _ = s := by
        simpa [List.getElem?_singleton] using here
      obtain rfl : number = t.scopes.length := by omega
      refine ⟨rfl, fun none => ?_, fun _ => ⟨t.current, rfl, h.current⟩, nofun⟩
      exact absurd h.current (none ▸ Nat.not_lt_zero _)

theorem exit (h : t.Numbered) : t.exit.Numbered := by
  obtain ⟨s, here, stands⟩ := h.exists_current
  unfold ScopeTable.exit currentScope?
  rw [here, Option.bind_some]
  cases around : s.parent? with
  | none => exact h
  | some parent =>
    exact ⟨Nat.lt_trans (stands.older around) h.current, h.scopes⟩

theorem append (h : t.Numbered) (symbol : Symbol) :
    Numbered { t with symbols := t.symbols ++ [symbol] } where
  current := h.current
  scopes number s here := by
    have stands := h.scopes number s here
    refine ⟨stands.own, stands.global, stands.around, fun b mem => ?_⟩
    rw [List.length_append]
    exact Nat.lt_add_right _ (stands.bound b mem)

theorem bind (h : t.Numbered) (name : String) {id : Nat} (known : id < t.symbols.length) :
    (t.bind name id).Numbered where
  current := by simpa [ScopeTable.bind] using h.current
  scopes number s here := by
    simp only [ScopeTable.bind, List.getElem?_modify] at here
    obtain ⟨old, there, rfl⟩ := Option.map_eq_some_iff.mp here
    have stands := h.scopes number old there
    split
    · exact ⟨stands.own, stands.global, stands.around,
        List.forall_mem_cons.mpr ⟨known, stands.bound⟩⟩
    · exact stands

/-- Every step leaves all numbers in the table as they should be. -/
theorem step (h : t.Numbered) (op : ScopeStep) : (t.step op).Numbered := by
  cases op with
  | enter kind => exact h.enter kind
  | exit => exact h.exit
  | define symbol =>
    rw [ScopeTable.step]
    split
    · rename_i id t' done
      obtain ⟨-, rfl, rfl⟩ := define_eq_ok_iff.mp done
      exact (h.append symbol).bind symbol.name (by simp)
    · exact h
  | addAlias name id =>
    rw [ScopeTable.step]
    split
    · rename_i t' done
      by_cases known : id < t.symbols.length
      · obtain ⟨-, rfl⟩ := (addAlias_eq_ok_iff (List.getElem?_eq_getElem known)).mp done
        exact h.bind name known
      · rw [addAlias, List.getElem?_eq_none (Nat.le_of_not_lt known)] at done
        cases done
        exact h
    · exact h

theorem run (h : t.Numbered) (steps : List ScopeStep) : (t.run steps).Numbered := by
  induction steps generalizing t with
  | nil => exact h
  | cons op rest ih => exact ih (h.step op)

/-! ## Look-ups -/

theorem known_of_find? (h : t.Numbered) {number id : Nat} {s : Scope} {name : String}
    (here : t.scopes[number]? = some s) (found : s.find? name = some id) :
    id < t.symbols.length := by
  obtain ⟨b, among, rfl⟩ := Option.map_eq_some_iff.mp found
  exact (h.scopes number s here).bound b (List.mem_of_find?_eq_some among)

/-- The walk from any scope of the table ends, since it goes to older scopes only, and what it finds
is a symbol. -/
theorem walk_findFrom (h : t.Numbered) (name : String) (number : Nat)
    (inside : number < t.scopes.length) :
    Strict.Walk t.scopes name number (findFrom t.scopes name number) ∧
      ∀ id, findFrom t.scopes name number = some id → id < t.symbols.length := by
  induction number using Nat.strongRecOn with
  | ind number ih =>
    have here := List.getElem?_eq_getElem inside
    have stands := h.scopes _ _ here
    generalize t.scopes[number] = s at here stands
    rw [findFrom, here]
    dsimp only
    cases bound : s.find? name with
    | some symbol =>
      refine ⟨.found here bound, fun id same => ?_⟩
      cases same
      exact h.known_of_find? here bound
    | none =>
      cases around : s.parent? with
      | none =>
        refine ⟨.global here bound around, fun id same => ?_⟩
        cases same
      | some parent =>
        have older := stands.older around
        simp only [if_pos older]
        obtain ⟨rest, found⟩ := ih parent older (Nat.lt_trans older inside)
        exact ⟨.outwards here bound around rest, found⟩

/-! ## Strict steps -/

theorem strict_exit (h : t.Numbered) : Strict.exit t = some t.exit := by
  obtain ⟨s, here, -⟩ := h.exists_current
  unfold Strict.exit ScopeTable.exit currentScope?
  rw [here]
  cases around : s.parent? <;> simp [around]

theorem strict_clash? (h : t.Numbered) (name : String) (span : Span) :
    Strict.clash? t name span = some (t.clash? name span) := by
  obtain ⟨s, here, -⟩ := h.exists_current
  unfold Strict.clash? ScopeTable.clash? lookupLocal? localId? currentScope?
  rw [here]
  cases bound : s.find? name with
  | none => simp [bound]
  | some id =>
    have known := List.getElem?_eq_getElem (h.known_of_find? here bound)
    simp [bound, known]

theorem strict_bindName (h : t.Numbered) (name : String) (id : Nat) :
    Strict.bindName t name id = some (t.bind name id) := by
  obtain ⟨s, here, -⟩ := h.exists_current
  unfold Strict.bindName ScopeTable.bind
  rw [here]
  simp [List.modify_eq_set, here]

theorem strict_define (h : t.Numbered) (symbol : Symbol) :
    Strict.define t symbol = some (t.define symbol) := by
  have bound := (h.append symbol).strict_bindName symbol.name t.symbols.length
  unfold Strict.define ScopeTable.define
  rw [h.strict_clash?]
  cases t.clash? symbol.name symbol.span with
  | some fault => rfl
  | none => simp [bound]

theorem strict_addAlias (h : t.Numbered) (name : String) (id : Nat) :
    Strict.addAlias t name id = some (t.addAlias name id) := by
  unfold Strict.addAlias ScopeTable.addAlias
  cases t.symbols[id]? with
  | none => rfl
  | some symbol =>
    dsimp only
    rw [h.strict_clash?, h.strict_bindName]
    cases t.clash? name symbol.span <;> rfl

theorem inRange (h : t.Numbered) : t.InRange where
  exit := h.strict_exit
  define := h.strict_define
  addAlias := h.strict_addAlias
  current := by
    obtain ⟨s, here, -⟩ := h.exists_current
    exact Option.isSome_of_eq_some here
  global := by
    have first : 0 < t.scopes.length := Nat.zero_lt_of_lt h.current
    rw [List.head?_eq_getElem?, List.getElem?_eq_getElem first]
    rfl
  walk name := (h.walk_findFrom name t.current h.current).1
  found name := (h.walk_findFrom name t.current h.current).2

end Numbered

/-- Whatever has been done to a table, all its numbers are those of scopes and symbols, so each step
and each look-up finds what it asks for. -/
theorem numbered_run (steps : List ScopeStep) :
    (empty.run steps).Numbered ∧ (empty.run steps).InRange :=
  have numbered := numbered_empty.run steps
  ⟨numbered, numbered.inRange⟩

end ScopeTable

end ExprCheck
