import Mathlib.Data.List.Induction
import ExprCheck.Proofs.Scope.Stack
/-! Names that are bound twice. Every scope keeps its bindings, also after it was left, and what a
scope binds is what the steps bound that were made while it was open. Main statement: a name is
refused exactly if such a step has bound it in the scope that is open; then nothing changes, and
otherwise nothing but this name in this scope. -/
namespace ExprCheck

namespace ScopeTable

/-- What a scope binds the name to, whether the scope is open or not. -/
def boundIn? (t : ScopeTable) (scope : Nat) (name : String) : Option Nat :=
  t.scopes[scope]?.bind (·.find? name)

/-- The step is not refused, and it binds the name to the symbol with the number. -/
inductive Binding (t : ScopeTable) : ScopeStep → String → Nat → Prop
  | define {symbol : Symbol} {id : Nat} {t' : ScopeTable}
      (done : t.define symbol = .ok (id, t')) : Binding t (.define symbol) symbol.name id
  | addAlias {name : String} {id : Nat} {t' : ScopeTable} (known : id < t.symbols.length)
      (done : t.addAlias name id = .ok t') : Binding t (.addAlias name id) name id

/-- One of the steps bound the name to the symbol with the number while the scope was the open
one. -/
def BoundBy (steps : List ScopeStep) (scope : Nat) (name : String) (id : Nat) : Prop :=
  ∃ before step after, steps = before ++ step :: after ∧ (empty.run before).current = scope ∧
    (empty.run before).Binding step name id

/-- The second table is the first one, but for what the open scope binds the name to and for the
symbols. -/
structure BindsOnly (t t' : ScopeTable) (name : String) (id : Nat) : Prop where
  current : t'.current = t.current
  elsewhere : ∀ scope, scope ≠ t.current → t'.scopes[scope]? = t.scopes[scope]?
  here : ∃ s s', t.scopes[t.current]? = some s ∧ t'.scopes[t.current]? = some s' ∧
    s'.id = s.id ∧ s'.parent? = s.parent? ∧ s'.kind = s.kind ∧
    s'.find? = Function.update s.find? name id

variable {t t' : ScopeTable} {s : ScopeStack} {name : String} {id : Nat}

/-! ## Single steps -/

theorem bindsOnly_bind {scope : Scope} (here : t.currentScope? = some scope) (name : String)
    (id : Nat) : t.BindsOnly (t.bind name id) name id where
  current := rfl
  elsewhere scope other := List.getElem?_modify_ne _ _ (Ne.symm other)
  here := by
    have there : t.scopes[t.current]? = some scope := here
    have after : (t.bind name id).scopes[t.current]? =
        some { scope with bindings := (name, id) :: scope.bindings } := by
      simp [bind, there]
    exact ⟨scope, _, there, after, rfl, rfl, rfl, congrArg Frame.find? (scope.frame_bind name id)⟩

theorem BindsOnly.boundIn?_eq_some_iff (h : t.BindsOnly t' name id)
    (free : t.boundIn? t.current name = none) (scope : Nat) (other : String) (found : Nat) :
    t'.boundIn? scope other = some found ↔ t.boundIn? scope other = some found ∨
      scope = t.current ∧ other = name ∧ found = id := by
  obtain ⟨s, s', before, after, -, -, -, finds⟩ := h.here
  by_cases current : scope = t.current
  · subst current
    unfold boundIn? at free ⊢
    rw [before] at free ⊢
    rw [after, Option.bind_some, Option.bind_some, finds, Function.update_apply]
    rw [Option.bind_some] at free
    by_cases same : other = name
    · subst same
      simp [free, eq_comm]
    · simp [same]
  · unfold boundIn?
    simp [h.elsewhere scope current, current]

theorem boundIn?_enter (t : ScopeTable) (kind : ScopeKind) (scope : Nat) (name : String) :
    (t.enter kind).boundIn? scope name = t.boundIn? scope name := by
  unfold boundIn? enter
  rcases Nat.lt_trichotomy scope t.scopes.length with older | new | later
  · rw [List.getElem?_append_left older]
  · subst new
    simp [Scope.find?]
  · rw [List.getElem?_eq_none (Nat.le_of_lt later), List.getElem?_eq_none]
    rwa [List.length_append, List.length_singleton]

theorem scopes_exit (t : ScopeTable) : t.exit.scopes = t.scopes := by
  unfold exit
  split <;> rfl

theorem clash?_eq_some_iff {span : Span} {fault : SpannedFault} :
    t.clash? name span = some fault ↔ ∃ id previous, t.boundIn? t.current name = some id ∧
      t.symbols[id]? = some previous ∧ fault = ⟨.duplicate name previous.span, span⟩ := by
  change (((t.boundIn? t.current name).bind (t.symbols[·]?)).map _ = some fault) ↔ _
  simp only [Option.map_eq_some_iff, Option.bind_eq_some_iff]
  constructor
  · rintro ⟨previous, ⟨id, bound, known⟩, rfl⟩
    exact ⟨id, previous, bound, known, rfl⟩
  · rintro ⟨id, previous, bound, known, rfl⟩
    exact ⟨previous, ⟨id, bound, known⟩, rfl⟩

theorem define_eq_error_iff {symbol : Symbol} {fault : SpannedFault} :
    t.define symbol = .error fault ↔ t.clash? symbol.name symbol.span = some fault := by
  unfold define
  cases t.clash? symbol.name symbol.span <;> simp

theorem define_eq_ok_iff {symbol : Symbol} :
    t.define symbol = .ok (id, t') ↔ t.clash? symbol.name symbol.span = none ∧
      id = t.symbols.length ∧
      t' = ({ t with symbols := t.symbols ++ [symbol] } : ScopeTable).bind symbol.name id := by
  unfold define
  cases t.clash? symbol.name symbol.span with
  | some fault => simp
  | none =>
    constructor
    · intro done
      cases done
      exact ⟨rfl, rfl, rfl⟩
    · rintro ⟨-, rfl, rfl⟩
      rfl

section

variable {symbol : Symbol} (known : t.symbols[id]? = some symbol)
include known

theorem addAlias_eq_error_iff {fault : SpannedFault} :
    t.addAlias name id = .error fault ↔ t.clash? name symbol.span = some fault := by
  simp only [addAlias, known]
  cases t.clash? name symbol.span <;> simp

theorem addAlias_eq_ok_iff :
    t.addAlias name id = .ok t' ↔ t.clash? name symbol.span = none ∧ t' = t.bind name id := by
  simp only [addAlias, known]
  cases t.clash? name symbol.span <;> simp [eq_comm]

end

theorem free_of_clash? (sim : Simulates t s) {span : Span} (noClash : t.clash? name span = none) :
    t.boundIn? t.current name = none :=
  (sim.localId?_eq name).trans ((sim.clash?_eq_none_iff name span).mp noClash)

theorem bindsOnly_define (sim : Simulates t s) {symbol : Symbol}
    (done : t.define symbol = .ok (id, t')) : t.BindsOnly t' symbol.name id := by
  obtain ⟨scope, here, -⟩ := sim.currentScope
  obtain ⟨-, -, rfl⟩ := define_eq_ok_iff.mp done
  exact ⟨rfl, (bindsOnly_bind here symbol.name id).elsewhere,
    (bindsOnly_bind here symbol.name id).here⟩

theorem bindsOnly_addAlias (sim : Simulates t s) (known : id < t.symbols.length)
    (done : t.addAlias name id = .ok t') : t.BindsOnly t' name id := by
  obtain ⟨scope, here, -⟩ := sim.currentScope
  obtain ⟨-, rfl⟩ := (addAlias_eq_ok_iff (List.getElem?_eq_getElem known)).mp done
  exact bindsOnly_bind here name id

theorem boundIn?_step_iff (sim : Simulates t s) (op : ScopeStep) (scope : Nat) (name : String)
    (id : Nat) : (t.step op).boundIn? scope name = some id ↔
      t.boundIn? scope name = some id ∨ t.current = scope ∧ t.Binding op name id := by
  have kept {t' : ScopeTable} (same : t'.boundIn? scope name = t.boundIn? scope name)
      (silent : ¬t.Binding op name id) : t'.boundIn? scope name = some id ↔
        t.boundIn? scope name = some id ∨ t.current = scope ∧ t.Binding op name id := by
    simp [same, silent]
  cases op with
  | enter kind => exact kept (boundIn?_enter t kind scope name) nofun
  | exit => exact kept (by simp only [step, boundIn?, scopes_exit]) nofun
  | define symbol =>
    cases done : t.define symbol with
    | error fault =>
      refine kept (by simp only [step, done]) ?_
      intro binding
      cases binding with
      | define done' => cases done.symm.trans done'
    | ok added =>
      obtain ⟨number, t'⟩ := added
      have free := free_of_clash? sim (define_eq_ok_iff.mp done).1
      simp only [step, done]
      rw [(bindsOnly_define sim done).boundIn?_eq_some_iff free]
      refine or_congr_right ⟨?_, ?_⟩
      · rintro ⟨rfl, rfl, rfl⟩
        exact ⟨rfl, .define done⟩
      · rintro ⟨rfl, binding⟩
        cases binding with
        | define done' =>
          cases done.symm.trans done'
          exact ⟨rfl, rfl, rfl⟩
  | addAlias full number =>
    by_cases known : number < t.symbols.length
    · cases done : t.addAlias full number with
      | error fault =>
        refine kept (by simp only [step, done]) ?_
        intro binding
        cases binding with
        | addAlias _ done' => cases done.symm.trans done'
      | ok t' =>
        have free :=
          free_of_clash? sim ((addAlias_eq_ok_iff (List.getElem?_eq_getElem known)).mp done).1
        simp only [step, done]
        rw [(bindsOnly_addAlias sim known done).boundIn?_eq_some_iff free]
        refine or_congr_right ⟨?_, ?_⟩
        · rintro ⟨rfl, rfl, rfl⟩
          exact ⟨rfl, .addAlias known done⟩
        · rintro ⟨rfl, binding⟩
          cases binding
          exact ⟨rfl, rfl, rfl⟩
    · -- An alias for a number that no symbol has binds nothing.
      have ignored : t.addAlias full number = .ok t := by
        simp only [addAlias, List.getElem?_eq_none (Nat.le_of_not_lt known)]
      refine kept (by simp only [step, ignored]) ?_
      intro binding
      cases binding with
      | addAlias known' _ => exact known known'

/-! ## Runs -/

theorem boundBy_concat_iff (steps : List ScopeStep) (op : ScopeStep) (scope : Nat) (name : String)
    (id : Nat) : BoundBy (steps ++ [op]) scope name id ↔ BoundBy steps scope name id ∨
      (empty.run steps).current = scope ∧ (empty.run steps).Binding op name id := by
  constructor
  · rintro ⟨before, step, after, whole, current, binding⟩
    rcases after.eq_nil_or_concat with rfl | ⟨after, last, rfl⟩
    · obtain ⟨rfl, same⟩ := List.append_inj' whole rfl
      cases same
      exact .inr ⟨current, binding⟩
    · rw [List.concat_eq_append, ← List.cons_append, ← List.append_assoc] at whole
      obtain ⟨rfl, -⟩ := List.append_inj' whole rfl
      exact .inl ⟨before, step, after, rfl, current, binding⟩
  · rintro (⟨before, step, after, rfl, current, binding⟩ | ⟨current, binding⟩)
    · exact ⟨before, step, after ++ [op], by simp, current, binding⟩
    · exact ⟨steps, op, [], rfl, current, binding⟩

/-- What a scope binds is what was bound while it was open. -/
theorem boundIn?_run_iff (steps : List ScopeStep) (scope : Nat) (name : String) (id : Nat) :
    (empty.run steps).boundIn? scope name = some id ↔ BoundBy steps scope name id := by
  induction steps using List.reverseRecOn with
  | nil =>
    constructor
    · intro bound
      cases scope with
      | zero => cases bound
      | succ scope => cases bound
    · rintro ⟨before, step, after, whole, -⟩
      simp at whole
  | append_singleton steps op ih =>
    have sim := Simulates.empty.run steps
    have last : empty.run (steps ++ [op]) = (empty.run steps).step op := by simp [run]
    rw [last, boundIn?_step_iff sim, ih, boundBy_concat_iff]

/-! ## Refusals -/

/-- After the steps, the name of a symbol at the span is refused exactly if the open scope binds it.
The fault names it and the span of the symbol that it is bound to, and the table is the same
afterwards. -/
structure RefusesBound (steps : List ScopeStep) (name : String) (span : Span)
    (refused : SpannedFault → Prop) (after : ScopeTable) : Prop where
  exactly : (∃ fault, refused fault) ↔ ∃ id, BoundBy steps (empty.run steps).current name id
  told : ∀ fault, refused fault → ∃ id previous,
    BoundBy steps (empty.run steps).current name id ∧
      (empty.run steps).symbols[id]? = some previous ∧ fault = ⟨.duplicate name previous.span, span⟩
  unchanged : ∀ fault, refused fault → after = empty.run steps

theorem refusesBound_of_clash? (steps : List ScopeStep) {name : String} {span : Span}
    {refused : SpannedFault → Prop} {after : ScopeTable}
    (clash : ∀ fault, refused fault ↔ (empty.run steps).clash? name span = some fault)
    (unchanged : ∀ fault, refused fault → after = empty.run steps) :
    RefusesBound steps name span refused after := by
  have sim := Simulates.empty.run steps
  have told (fault : SpannedFault) (fails : refused fault) : ∃ id previous,
      BoundBy steps (empty.run steps).current name id ∧
        (empty.run steps).symbols[id]? = some previous ∧
          fault = ⟨.duplicate name previous.span, span⟩ := by
    obtain ⟨id, previous, bound, known, same⟩ := clash?_eq_some_iff.mp ((clash fault).mp fails)
    exact ⟨id, previous, (boundIn?_run_iff ..).mp bound, known, same⟩
  refine ⟨⟨?_, ?_⟩, told, unchanged⟩
  · rintro ⟨fault, fails⟩
    obtain ⟨id, -, bound, -⟩ := told fault fails
    exact ⟨id, bound⟩
  · rintro ⟨id, bound⟩
    cases free : (empty.run steps).clash? name span with
    | some fault => exact ⟨fault, (clash fault).mpr free⟩
    | none =>
      have found := (boundIn?_run_iff ..).mpr bound
      rw [free_of_clash? sim free] at found
      cases found

end ScopeTable

open ScopeTable

/-- Whatever has been done to a table, a name is refused for a symbol exactly if it was bound in the
open scope before, under which nothing changes. A symbol with a new name comes behind all others,
and apart from that a new name changes only what the open scope binds it to. -/
theorem refuses_bound_names (steps : List ScopeStep) :
    let t := ScopeTable.empty.run steps
    (∀ symbol,
      RefusesBound steps symbol.name symbol.span (t.define symbol = .error ·)
        (t.step (.define symbol)) ∧
      ∀ id t', t.define symbol = .ok (id, t') → t.step (.define symbol) = t' ∧
        id = t.symbols.length ∧ t'.symbols = t.symbols ++ [symbol] ∧
        t.BindsOnly t' symbol.name id) ∧
    ∀ name id symbol, t.symbols[id]? = some symbol →
      RefusesBound steps name symbol.span (t.addAlias name id = .error ·)
        (t.step (.addAlias name id)) ∧
      ∀ t', t.addAlias name id = .ok t' → t.step (.addAlias name id) = t' ∧
        t'.symbols = t.symbols ∧ t.BindsOnly t' name id := by
  intro t
  have sim := Simulates.empty.run steps
  constructor
  · intro symbol
    refine ⟨refusesBound_of_clash? steps (fun _ => define_eq_error_iff) ?_, ?_⟩
    · intro fault fails
      simp only [step, fails, t]
    · intro id t' done
      obtain ⟨-, number, rfl⟩ := define_eq_ok_iff.mp done
      exact ⟨by simp only [step, done], number, rfl, bindsOnly_define sim done⟩
  · intro name id symbol known
    refine ⟨refusesBound_of_clash? steps (fun _ => addAlias_eq_error_iff known) ?_, ?_⟩
    · intro fault fails
      simp only [step, fails, t]
    · intro t' done
      obtain ⟨-, rfl⟩ := (addAlias_eq_ok_iff known).mp done
      have below := (List.getElem?_eq_some_iff.mp known).1
      exact ⟨by simp only [step, done], rfl, bindsOnly_addAlias sim below done⟩

/- Inside a block, an outer name is free, and an alias of its symbol is not. -/
theorem refuses_bound_names_alias :
    let x : Symbol := .var "x" .undetermined ⟨0, 1⟩
    let y : Symbol := .var "y" .undetermined ⟨2, 3⟩
    let t := ScopeTable.empty.run [.define x, .enter .block, .addAlias "y" 0]
    let fault : SpannedFault := ⟨.duplicate "y" ⟨0, 1⟩, ⟨2, 3⟩⟩
    (t.define y = .error fault ∧ t.step (.define y) = t) ∧
    (∃ t', t.define x = .ok (1, t') ∧ t'.symbols = [x, x] ∧ t.BindsOnly t' "x" 1) ∧
    (t.symbols[0]? = some x ∧ (∃ fault, t.addAlias "y" 0 = .error fault) ∧
      t.step (.addAlias "y" 0) = t) ∧
    ∃ t', t.addAlias "z" 0 = .ok t' ∧ t'.symbols = [x] ∧ t.BindsOnly t' "z" 0 := by
  intro x y t fault
  obtain ⟨defines, aliases⟩ := refuses_bound_names [.define x, .enter .block, .addAlias "y" 0]
  have known : t.symbols[0]? = some x := rfl
  have refused : t.define y = .error fault := rfl
  have refused' : t.addAlias "y" 0 = .error ⟨.duplicate "y" ⟨0, 1⟩, ⟨0, 1⟩⟩ := rfl
  obtain ⟨t', added⟩ : ∃ t', t.define x = .ok (1, t') := ⟨_, rfl⟩
  obtain ⟨u, bound⟩ : ∃ u, t.addAlias "z" 0 = .ok u := ⟨_, rfl⟩
  obtain ⟨-, -, symbols, only⟩ := (defines x).2 1 t' added
  obtain ⟨-, symbols', only'⟩ := (aliases "z" 0 x known).2 u bound
  refine ⟨⟨refused, (defines y).1.unchanged _ refused⟩, ⟨t', added, symbols, only⟩,
    ⟨known, ⟨_, refused'⟩, ?_⟩, u, bound, symbols', only'⟩
  exact (aliases "y" 0 x known).1.unchanged _ refused'

end ExprCheck
