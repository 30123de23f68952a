import Mathlib.Logic.Function.Basic
import ExprCheck.Scope
/-! The scopes of a table that are still open. A stack of maps is kept here beside the table:
entering a scope pushes an empty map, leaving one pops it, and nothing is remembered of a scope that
was left. Main statement: whatever has been done to a table, it answers what the stack answers, and
a symbol keeps the number that it was defined with. -/
namespace ExprCheck

inductive ScopeStep where
  | enter (kind : ScopeKind)
  | exit
  | define (symbol : Symbol)
  | addAlias (name : String) (id : Nat)

namespace ScopeTable

/-- The table after a step; one that fails changes nothing. -/
def step (t : ScopeTable) : ScopeStep → ScopeTable
  | .enter kind => t.enter kind
  | .exit => t.exit
  | .define symbol =>
      match t.define symbol with
      | .ok (_, t') => t'
      | .error _ => t
  | .addAlias name id =>
      match t.addAlias name id with
      | .ok t' => t'
      | .error _ => t

def run (t : ScopeTable) (steps : List ScopeStep) : ScopeTable :=
  steps.foldl step t

end ScopeTable

/-! ## The stack -/

/-- An open scope: its kind, and the numbers of the symbols that its names are bound to. -/
structure Frame where
  kind : ScopeKind
  find? : String → Option Nat

/-- The open scopes inside the global one, the innermost first, and the symbols in the order of
their definition. -/
structure ScopeStack where
  inner : List Frame
  global : Frame
  symbols : List Symbol

namespace ScopeStack

def empty : ScopeStack :=
  ⟨[], ⟨.global, fun _ => none⟩, []⟩

def frames (s : ScopeStack) : List Frame :=
  s.inner ++ [s.global]

def innermost (s : ScopeStack) : Frame :=
  s.inner.headD s.global

/-- What the innermost scope that binds the name binds it to. -/
def find? (s : ScopeStack) (name : String) : Option Nat :=
  s.frames.findSome? (·.find? name)

def bind (s : ScopeStack) (name : String) (id : Nat) : ScopeStack :=
  let bound (frame : Frame) : Frame := { frame with find? := Function.update frame.find? name id }
  match s.inner with
  | [] => { s with global := bound s.global }
  | frame :: rest => { s with inner := bound frame :: rest }

/-- The innermost scope takes a name that it does not bind yet; the global one is never left, and a
number that no symbol has is no alias. -/
def step (s : ScopeStack) : ScopeStep → ScopeStack
  | .enter kind => { s with inner := ⟨kind, fun _ => none⟩ :: s.inner }
  | .exit => { s with inner := s.inner.tail }
  | .define symbol =>
      if s.innermost.find? symbol.name = none then
        { s with symbols := s.symbols ++ [symbol] }.bind symbol.name s.symbols.length
      else s
  | .addAlias name id =>
      if id < s.symbols.length ∧ s.innermost.find? name = none then s.bind name id else s

def run (s : ScopeStack) (steps : List ScopeStep) : ScopeStack :=
  steps.foldl step s

end ScopeStack

/-! ## Walking outwards -/

def Scope.frame (scope : Scope) : Frame :=
  ⟨scope.kind, scope.find?⟩

/-- From the scope with the number outwards stand the frames and then the global one. Scopes that
were left may stand anywhere between. -/
inductive Outwards (scopes : List Scope) (global : Frame) : Nat → List Frame → Prop
  | global {scope : Scope} (here : scopes[0]? = some scope) (outermost : scope.parent? = none)
      (same : scope.frame = global) : Outwards scopes global 0 []
  | inside {id parent : Nat} {scope : Scope} {frames : List Frame}
      (here : scopes[id]? = some scope) (around : scope.parent? = some parent)
      (older : parent < id) (rest : Outwards scopes global parent frames) :
      Outwards scopes global id (scope.frame :: frames)

namespace Outwards

variable {scopes : List Scope} {global : Frame} {id : Nat} {frames : List Frame}

theorem current (h : Outwards scopes global id frames) :
    ∃ scope, scopes[id]? = some scope ∧ scope.frame = frames.headD global := by
  cases h with
  | global here _ same => exact ⟨_, here, same⟩
  | inside here => exact ⟨_, here, rfl⟩

theorem outermost (h : Outwards scopes global id frames) :
    ∃ scope, scopes.head? = some scope ∧ scope.frame = global := by
  induction h with
  | global here _ same => exact ⟨_, List.head?_eq_getElem? ▸ here, same⟩
  | inside _ _ _ _ ih => exact ih

theorem lt_length (h : Outwards scopes global id frames) : id < scopes.length := by
  obtain ⟨scope, here, -⟩ := h.current
  exact (List.getElem?_eq_some_iff.mp here).1

theorem findFrom_eq (h : Outwards scopes global id frames) (name : String) :
    ScopeTable.findFrom scopes name id = (frames ++ [global]).findSome? (·.find? name) := by
  induction h with
  | @global scope here outermost same =>
    rw [ScopeTable.findFrom, here]
    simp only [outermost, ← same, Scope.frame, List.nil_append, List.findSome?_cons,
      List.findSome?_nil]
    cases scope.find? name <;> rfl
  | @inside id parent scope frames here around older rest ih =>
    rw [ScopeTable.findFrom, here]
    simp only [around, if_pos older, ih, Scope.frame, List.cons_append, List.findSome?_cons]
    cases scope.find? name <;> rfl

theorem append (h : Outwards scopes global id frames) (new : List Scope) :
    Outwards (scopes ++ new) global id frames := by
  have kept {i : Nat} {scope : Scope} (here : scopes[i]? = some scope) :
      (scopes ++ new)[i]? = some scope := by
    rw [List.getElem?_append_left (List.getElem?_eq_some_iff.mp here).1, here]
  induction h with
  | global here outermost same => exact .global (kept here) outermost same
  | inside here around older _ ih => exact .inside (kept here) around older ih

theorem modify_younger (h : Outwards scopes global id frames) {younger : Nat} (lt : id < younger)
    (f : Scope → Scope) : Outwards (scopes.modify younger f) global id frames := by
  induction h with
  | global here outermost same =>
    exact .global (by rw [List.getElem?_modify_ne _ _ (by omega), here]) outermost same
  | inside here around older _ ih =>
    exact .inside (by rw [List.getElem?_modify_ne _ _ (by omega), here]) around older
      (ih (by omega))

end Outwards

theorem Scope.frame_bind (scope : Scope) (name : String) (id : Nat) :
    Scope.frame { scope with bindings := (name, id) :: scope.bindings } =
      { scope.frame with find? := Function.update scope.frame.find? name id } := by
  have bound : Scope.find? { scope with bindings := (name, id) :: scope.bindings } =
      Function.update scope.find? name id := by
    funext other
    by_cases same : name = other
    · simp [Scope.find?, ← same]
    · simp [Scope.find?, same, Function.update_of_ne (Ne.symm same)]
  simp [Scope.frame, bound]

/-! ## The simulation -/

/-- The open scopes of the table are the stack, and names are bound to numbers of symbols. -/
structure Simulates (t : ScopeTable) (s : ScopeStack) : Prop where
  scopes : Outwards t.scopes s.global t.current s.inner
  symbols : t.symbols = s.symbols
  numbered : ∀ frame ∈ s.frames, ∀ name id, frame.find? name = some id → id < s.symbols.length

namespace Simulates

variable {t : ScopeTable} {s : ScopeStack}

theorem empty : Simulates .empty .empty where
  scopes := .global rfl rfl rfl
  symbols := rfl
  numbered frame mem name id bound := by
    obtain rfl := List.mem_singleton.mp mem
    cases bound

theorem innermost_mem (s : ScopeStack) : s.innermost ∈ s.frames := by
  unfold ScopeStack.innermost ScopeStack.frames
  cases s.inner <;> simp

theorem currentScope (h : Simulates t s) :
    ∃ scope, t.currentScope? = some scope ∧ scope.frame = s.innermost :=
  h.scopes.current

theorem localId?_eq (h : Simulates t s) (name : String) :
    t.localId? name = s.innermost.find? name := by
  obtain ⟨scope, here, same⟩ := h.currentScope
  rw [ScopeTable.localId?, here, ← same]
  rfl

theorem clash?_eq_none_iff (h : Simulates t s) (name : String) (span : Span) :
    t.clash? name span = none ↔ s.innermost.find? name = none := by
  unfold ScopeTable.clash? ScopeTable.lookupLocal?
  rw [h.localId?_eq, h.symbols]
  cases bound : s.innermost.find? name with
  | none => simp
  | some id =>
    have known := h.numbered _ (innermost_mem s) name id bound
    simp [known]

/-! ### Steps -/

theorem enter (h : Simulates t s) (kind : ScopeKind) :
    Simulates (t.enter kind) (s.step (.enter kind)) where
  scopes := by
    have older := h.scopes.lt_length
    exact .inside (List.getElem?_concat_length) rfl older (h.scopes.append _)
  symbols := h.symbols
  numbered frame mem := by
    rcases List.mem_cons.mp mem with rfl | old
    · exact nofun
    · exact h.numbered frame old

theorem exit (h : Simulates t s) : Simulates t.exit (s.step .exit) := by
  obtain ⟨all, current, _⟩ := t
  obtain ⟨inner, global, symbols⟩ := s
  obtain ⟨scopes, same, numbered⟩ := h
  unfold ScopeTable.exit ScopeTable.currentScope?
  cases scopes with
  | global here outermost frame =>
    simp only [here, Option.bind_some, outermost]
    exact ⟨.global here outermost frame, same, numbered⟩
  | inside here around older rest =>
    simp only [here, Option.bind_some, around]
    exact ⟨rest, same, fun frame mem => numbered frame (List.mem_cons_of_mem _ mem)⟩

theorem bind (h : Simulates t s) {id : Nat} (known : id < s.symbols.length) (name : String) :
    Simulates (t.bind name id) (s.bind name id) := by
  obtain ⟨all, current, _⟩ := t
  obtain ⟨inner, global, symbols⟩ := s
  obtain ⟨scopes, same, numbered⟩ := h
  have bound (frame : Frame) (mem : frame ∈ inner ++ [global]) (other : String) (found : Nat)
      (holds : Function.update frame.find? name id other = some found) : found < symbols.length := by
    rw [Function.update_apply] at holds
    split at holds
    · cases holds
      exact known
    · exact numbered frame mem other found holds
  have changed {scope : Scope} (here : all[current]? = some scope) :
      (all.modify current fun s => { s with bindings := (name, id) :: s.bindings })[current]? =
        some { scope with bindings := (name, id) :: scope.bindings } := by
    simp [here]
  cases scopes with
  | global here outermost frame =>
    refine ⟨.global (changed here) outermost ?_, same, ?_⟩
    · rw [Scope.frame_bind, frame]
      rfl
    · intro frame mem
      obtain rfl := List.mem_singleton.mp mem
      exact bound _ (by simp)
  | @inside _ parent scope frames here around older rest =>
    refine ⟨?_, same, ?_⟩
    -- only the current scope changes, and those around it are older
    · have inside := Outwards.inside (changed here) around older (rest.modify_younger older _)
      rwa [Scope.frame_bind] at inside
    · intro frame mem
      rcases List.mem_cons.mp mem with rfl | old
      · exact bound _ (by simp)
      · exact numbered frame (List.mem_cons_of_mem _ old)

theorem append (h : Simulates t s) (symbol : Symbol) :
    Simulates { t with symbols := t.symbols ++ [symbol] }
      { s with symbols := s.symbols ++ [symbol] } where
  scopes := h.scopes
  symbols := by rw [h.symbols]
  numbered frame mem name id bound := by
    have below := h.numbered frame mem name id bound
    simp only [List.length_append, List.length_singleton]
    omega

theorem define (h : Simulates t s) (symbol : Symbol) :
    Simulates (t.step (.define symbol)) (s.step (.define symbol)) := by
  have noClash := h.clash?_eq_none_iff symbol.name symbol.span
  simp only [ScopeTable.step, ScopeTable.define, ScopeStack.step]
  cases clash : t.clash? symbol.name symbol.span with
  | some fault =>
    rw [if_neg fun free => by simp [noClash.mpr free] at clash]
    exact h
  | none =>
    have known : s.symbols.length < (s.symbols ++ [symbol]).length := by simp
    rw [if_pos (noClash.mp clash), h.symbols]
    exact h.symbols ▸ (h.append symbol).bind known symbol.name

theorem addAlias (h : Simulates t s) (name : String) (id : Nat) :
    Simulates (t.step (.addAlias name id)) (s.step (.addAlias name id)) := by
  simp only [ScopeTable.step, ScopeTable.addAlias, ScopeStack.step, h.symbols]
  by_cases known : id < s.symbols.length
  · have noClash := h.clash?_eq_none_iff name s.symbols[id].span
    simp only [List.getElem?_eq_getElem known, known, true_and]
    cases clash : t.clash? name s.symbols[id].span with
    | some fault =>
      rw [if_neg fun free => by simp [noClash.mpr free] at clash]
      exact h
    | none =>
      rw [if_pos (noClash.mp clash)]
      exact h.bind known name
  · rw [List.getElem?_eq_none (Nat.le_of_not_lt known), if_neg (fun both => known both.1)]
    exact h

theorem step (h : Simulates t s) (op : ScopeStep) : Simulates (t.step op) (s.step op) := by
  cases op with
  | enter kind => exact h.enter kind
  | exit => exact h.exit
  | define symbol => exact h.define symbol
  | addAlias name id => exact h.addAlias name id

theorem run (h : Simulates t s) (steps : List ScopeStep) :
    Simulates (t.run steps) (s.run steps) := by
  induction steps generalizing t s with
  | nil => exact h
  | cons op rest ih => exact ih (h.step op)

end Simulates

/-! ## Answers -/

namespace ScopeTable

theorem symbols_step (t : ScopeTable) (op : ScopeStep) :
    ∃ later, (t.step op).symbols = t.symbols ++ later := by
  cases op with
  | enter kind => exact ⟨[], (List.append_nil _).symm⟩
  | exit =>
    refine ⟨[], ?_⟩
    rw [List.append_nil, step, exit]
    split <;> rfl
  | define symbol =>
    simp only [step, define]
    cases t.clash? symbol.name symbol.span with
    | none => exact ⟨[symbol], rfl⟩
    | some fault => exact ⟨[], (List.append_nil _).symm⟩
  | addAlias name id =>
    refine ⟨[], ?_⟩
    rw [List.append_nil, step, addAlias]
    cases t.symbols[id]? with
    | none => rfl
    | some symbol => dsimp only; cases t.clash? name symbol.span <;> rfl

/-- No symbol is ever taken out or put elsewhere. -/
theorem symbols_run (t : ScopeTable) (steps : List ScopeStep) :
    ∃ later, (t.run steps).symbols = t.symbols ++ later := by
  induction steps generalizing t with
  | nil => exact ⟨[], (List.append_nil _).symm⟩
  | cons op rest ih =>
    obtain ⟨here, first⟩ := t.symbols_step op
    obtain ⟨later, whole⟩ := ih (t.step op)
    refine ⟨here ++ later, ?_⟩
    rw [← List.append_assoc, ← first, ← whole]
    rfl

theorem of_define {t t' : ScopeTable} {symbol : Symbol} {id : Nat}
    (defined : t.define symbol = .ok (id, t')) :
    id = t.symbols.length ∧ t'.symbols = t.symbols ++ [symbol] := by
  unfold define at defined
  split at defined
  · cases defined
  · cases defined
    exact ⟨rfl, rfl⟩

end ScopeTable

/-- The table answers what the stack says. A name is looked up in the open scopes from the innermost
outwards, in the innermost alone, or in the global one alone; a scope that is entered binds nothing,
the global one is not left, and a symbol that is defined comes behind those defined before it and
stays there. -/
structure Reflects (t : ScopeTable) (s : ScopeStack) : Prop where
  lookupId? : ∀ name, t.lookupId? name = s.find? name
  lookup? : ∀ name, t.lookup? name = (s.find? name).bind (s.symbols[·]?)
  lookupLocal? : ∀ name, t.lookupLocal? name = (s.innermost.find? name).bind (s.symbols[·]?)
  lookupGlobal? : ∀ name, t.lookupGlobal? name = (s.global.find? name).bind (s.symbols[·]?)
  known : ∀ frame ∈ s.frames, ∀ name id, frame.find? name = some id → id < s.symbols.length
  currentKind : t.currentKind = s.innermost.kind
  entered : ∀ kind name, (t.enter kind).lookupLocal? name = none
  exited : s.inner = [] → t.exit = t
  symbols : t.symbols = s.symbols
  defines : ∀ symbol, (∃ id t', t.define symbol = .ok (id, t')) ↔
    s.innermost.find? symbol.name = none
  aliases : ∀ name id, (∃ t', t.addAlias name id = .ok t') ↔
    (id < s.symbols.length → s.innermost.find? name = none)
  kept : ∀ symbol id t', t.define symbol = .ok (id, t') → id = t.symbols.length ∧
    ∀ more, ∃ later, (t'.run more).symbols = t.symbols ++ symbol :: later

theorem Simulates.reflects {t : ScopeTable} {s : ScopeStack} (h : Simulates t s) :
    Reflects t s where
  lookupId? name := h.scopes.findFrom_eq name
  lookup? name := by
    rw [ScopeTable.lookup?, ScopeTable.lookupId?, h.scopes.findFrom_eq name, h.symbols]
    rfl
  lookupLocal? name := by
    rw [ScopeTable.lookupLocal?, h.localId?_eq, h.symbols]
  lookupGlobal? name := by
    obtain ⟨scope, here, same⟩ := h.scopes.outermost
    rw [ScopeTable.lookupGlobal?, here, h.symbols, ← same]
    rfl
  known := h.numbered
  currentKind := by
    obtain ⟨scope, here, same⟩ := h.currentScope
    rw [ScopeTable.currentKind, here, ← same]
    rfl
  entered kind name := by
    rw [ScopeTable.lookupLocal?, (h.enter kind).localId?_eq]
    rfl
  exited global := by
    obtain ⟨inner, frame, symbols⟩ := s
    obtain rfl : inner = [] := global
    obtain ⟨all, current, known⟩ := t
    obtain ⟨scopes, -, -⟩ := h
    cases scopes with
    | global here outermost same =>
      simp [ScopeTable.exit, ScopeTable.currentScope?, here, outermost]
  symbols := h.symbols
  defines symbol := by
    rw [← h.clash?_eq_none_iff symbol.name symbol.span, ScopeTable.define]
    cases t.clash? symbol.name symbol.span <;> simp
  aliases name id := by
    rw [ScopeTable.addAlias, h.symbols]
    by_cases known : id < s.symbols.length
    · rw [← h.clash?_eq_none_iff name s.symbols[id].span, List.getElem?_eq_getElem known]
      cases clash : t.clash? name s.symbols[id].span <;> simp [known, clash]
    · simp [known]
  kept symbol id t' defined := by
    obtain ⟨number, symbols⟩ := ScopeTable.of_define defined
    refine ⟨number, fun more => ?_⟩
    -- Steps only add symbols behind those that are there.
    obtain ⟨later, whole⟩ := t'.symbols_run more
    exact ⟨later, by rw [whole, symbols, List.append_assoc, List.singleton_append]⟩

/-- Whatever has been done to a table, it answers what the stack of its open scopes says. -/
theorem reflects_run (steps : List ScopeStep) :
    Reflects (ScopeTable.empty.run steps) (ScopeStack.empty.run steps) :=
  (Simulates.empty.run steps).reflects

/- A name of a scope that was left is not found in a scope of the same kind that is entered later.
-/
example :
    (ScopeTable.empty.run [.enter .block, .define (.var "x" .undetermined (.point 0)), .exit,
      .enter .block]).lookup? "x" = none := by
  with_unfolding_all rfl

end ExprCheck
