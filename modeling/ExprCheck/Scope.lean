import ExprCheck.Fault
import ExprCheck.Symbol
/-! The table of scopes. Every scope that was ever entered keeps its number, and so does every
symbol. A name is bound in one scope and found from all scopes inside it. Names can be bound a
second time in an inner scope but not in their own. -/
namespace ExprCheck

inductive ScopeKind where
  | global
  | function
  | block
deriving DecidableEq, Repr, Inhabited

/-- A scope: its number, the scope around it, and the numbers of the symbols that it binds. -/
structure Scope where
  id : Nat
  parent? : Option Nat
  kind : ScopeKind
  bindings : List (String × Nat)
deriving DecidableEq, Repr, Inhabited

def Scope.find? (s : Scope) (name : String) : Option Nat :=
  (s.bindings.find? (·.1 = name)).map (·.2)

/-- All scopes and symbols by number, and the scope that is open. -/
structure ScopeTable where
  scopes : List Scope
  current : Nat
  symbols : List Symbol
deriving Repr, Inhabited

namespace ScopeTable

def empty : ScopeTable :=
  ⟨[⟨0, none, .global, []⟩], 0, []⟩

def currentScope? (t : ScopeTable) : Option Scope :=
  t.scopes[t.current]?

def enter (t : ScopeTable) (kind : ScopeKind) : ScopeTable :=
  let id := t.scopes.length
  { t with scopes := t.scopes ++ [⟨id, some t.current, kind, []⟩], current := id }

/-- Goes back to the scope around the current one; the global scope is never left. -/
def exit (t : ScopeTable) : ScopeTable :=
  match t.currentScope?.bind Scope.parent? with
  | some parent => { t with current := parent }
  | none => t

def currentKind (t : ScopeTable) : ScopeKind :=
  (t.currentScope?.map Scope.kind).getD .global

def localId? (t : ScopeTable) (name : String) : Option Nat :=
  t.currentScope?.bind (·.find? name)

/-- Looks a name up from a scope outwards. A scope is younger than the one around it, so the walk
goes down. -/
def findFrom (scopes : List Scope) (name : String) (id : Nat) : Option Nat :=
  match scopes[id]? with
  | none => none
  | some scope =>
      match scope.find? name with
      | some symbol => some symbol
      | none =>
          match scope.parent? with
          | some parent => if parent < id then findFrom scopes name parent else none
          | none => none
termination_by id

def lookupId? (t : ScopeTable) (name : String) : Option Nat :=
  findFrom t.scopes name t.current

def lookup? (t : ScopeTable) (name : String) : Option Symbol :=
  (t.lookupId? name).bind (t.symbols[·]?)

def lookupLocal? (t : ScopeTable) (name : String) : Option Symbol :=
  (t.localId? name).bind (t.symbols[·]?)

def lookupGlobal? (t : ScopeTable) (name : String) : Option Symbol :=
  (t.scopes.head?.bind (·.find? name)).bind (t.symbols[·]?)

def clash? (t : ScopeTable) (name : String) (span : Span) : Option SpannedFault :=
  (t.lookupLocal? name).map fun previous => ⟨.duplicate name previous.span, span⟩

def bind (t : ScopeTable) (name : String) (symbol : Nat) : ScopeTable :=
  { t with scopes := t.scopes.modify t.current fun s =>
      { s with bindings := (name, symbol) :: s.bindings } }

/-- Adds a symbol under its own name; answers its number. -/
def define (t : ScopeTable) (symbol : Symbol) : Except SpannedFault (Nat × ScopeTable) :=
  match t.clash? symbol.name symbol.span with
  | some fault => .error fault
  | none =>
      let id := t.symbols.length
      .ok (id, { t with symbols := t.symbols ++ [symbol] }.bind symbol.name id)

/-- Binds a further name to a symbol; a number that no symbol has is ignored. -/
def addAlias (t : ScopeTable) (name : String) (id : Nat) : Except SpannedFault ScopeTable :=
  match t.symbols[id]? with
  | none => .ok t
  | some symbol =>
      match t.clash? name symbol.span with
      | some fault => .error fault
      | none => .ok (t.bind name id)

def isKind (t : ScopeTable) (name : String) (kinds : List SymbolKind) : Bool :=
  (t.lookup? name).any fun symbol => kinds.contains symbol.kind

end ScopeTable

end ExprCheck
