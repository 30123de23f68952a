import ExprCheck.Proofs.Prelude.Passes
/-! What the names of a prelude stand for. The table of a list of declarations is described here
without the passes that build it. Main statement: a name is found exactly if a declaration of the
list has it, as its local name or behind the module that the declaration is below, and what is found
is the symbol that the declaration stands for when every annotation has the type that it denotes. -/
namespace ExprCheck

theorem placed_append (module? : Option String) (xs ys : List Declaration) :
    placed module? (xs ++ ys) = placed module? xs ++ placed (lastModule? module? xs) ys := by
  induction xs generalizing module? with
  | nil => rfl
  | cons d rest ih =>
    rw [List.cons_append, placed_cons module? d (rest ++ ys), ih, placed_cons module? d rest,
      List.append_assoc]
    rfl

theorem structureNames_append (module? : Option String) (xs ys : List Declaration) :
    structureNames module? (xs ++ ys) =
      structureNames module? xs ++ structureNames (lastModule? module? xs) ys := by
  induction xs generalizing module? with
  | nil => rfl
  | cons d rest ih =>
    obtain ⟨declared, span⟩ := d
    cases declared with
    | inModule | function | var => exact ih _
    | struct name fields => exact congrArg (List.cons _) (ih _)

/-- The declaration has the name, alone or behind the module that it is below. -/
def Declares (x : Option String × Declaration) (name : String) : Prop :=
  ∃ alone, x.2.declared.name? = some alone ∧ (name = alone ∨ name = fullName x.1 alone)

theorem names_iff {ds : List (Option String × Declaration)} {i : Nat} {name : String} :
    Names ds i name ↔ ∃ x, ds[i]? = some x ∧ Declares x name := by
  constructor
  · rintro ⟨module?, d, alone, here, named, either⟩
    exact ⟨(module?, d), here, alone, named, either⟩
  · rintro ⟨⟨module?, d⟩, here, alone, named, either⟩
    exact ⟨module?, d, alone, here, named, either⟩

/-- The types that the collecting pass gives to the texts of annotations. -/
def typeOf (ds : List Declaration) : String → Option Ty :=
  (ds.foldl Prelude.collect .empty).findType?

/-- The declarations are taken in without a fault, and no local name has a dot. -/
structure Tabled (ds : List Declaration) (t : ScopeTable) : Prop where
  accepted : ScopeTable.ofDeclarations ds = .ok t
  dotless : ∀ d ∈ ds, ∀ name ∈ d.declared.name?, '.' ∉ name.toList

theorem tabled_of_readPrelude {source : String} {t : ScopeTable}
    (read : readPrelude source = .ok t) :
    ∃ ds, readDeclarations source = .ok ds ∧ Tabled ds t := by
  obtain ⟨ds, declared, accepted⟩ := readPrelude_eq_ok_iff.mp read
  exact ⟨ds, declared, accepted, dotless_of_readDeclarations declared⟩

namespace Tabled

variable {ds : List Declaration} {t : ScopeTable}

theorem follows (h : Tabled ds t) : Prelude.empty.Follows ds where
  rooted := ScopeTable.rooted_empty
  ok := (ScopeTable.ofDeclarations_eq_ok_iff.mp h.accepted).1
  dotless := h.dotless

theorem table_eq (h : Tabled ds t) : (Prelude.empty.extend ds).2.table = t :=
  (ScopeTable.ofDeclarations_eq_ok_iff.mp h.accepted).2

theorem wellFormed (h : Tabled ds t) : WellFormed ds :=
  (ofDeclarations_ok_iff h.dotless).mp ⟨t, h.accepted⟩

theorem gains (h : Tabled ds t) : ScopeTable.empty.Gains (typeOf ds) (placed none ds) t :=
  h.table_eq ▸ h.follows.gains

theorem rooted (h : Tabled ds t) : t.Rooted :=
  h.table_eq ▸ Prelude.extend_rooted ScopeTable.rooted_empty ds

theorem typeOf_eq_some_iff (h : Tabled ds t) {text : String} {ty : Ty} :
    typeOf ds text = some ty ↔ Denotes ds text ty := by
  refine ⟨Prelude.denotes_of_findType? (Prelude.collected_foldl_collect ds), fun denotes => ?_⟩
  cases denotes with
  | builtIn name => simp [typeOf, Prelude.findType?, name]
  | @struct name full other declared either =>
    obtain ⟨module?, fields, span, among, rfl⟩ := mem_structureNames_iff.mp declared
    obtain ⟨i, here⟩ := List.mem_iff_getElem?.mp among
    exact h.follows.findType?_eq here either other

theorem typeOf_isSome (h : Tabled ds t) {d : Declaration} (mem : d ∈ ds) {text : String}
    (written : text ∈ d.declared.annotations) : (typeOf ds text).isSome := by
  obtain ⟨ty, denotes⟩ := h.wellFormed.types d mem text written
  rw [h.typeOf_eq_some_iff.mpr denotes]
  rfl

theorem mem_symbols_iff (h : Tabled ds t) {s : Symbol} :
    s ∈ t.symbols ↔ ∃ x ∈ placed none ds, x.2.symbol? (typeOf ds) x.1 = some s := by
  obtain ⟨added, whole, same⟩ := h.gains.symbols
  have all : t.symbols = added := by simpa [ScopeTable.empty] using whole
  have listed : some s ∈ added.map some ↔ s ∈ added := by simp
  rw [all, ← listed, same, List.mem_map]

/-- The symbols that are found are those that the declarations stand for. -/
theorem lookup?_eq_some_iff (h : Tabled ds t) {name : String} {s : Symbol} :
    t.lookup? name = some s ↔
      ∃ x ∈ placed none ds, Declares x name ∧ x.2.symbol? (typeOf ds) x.1 = some s := by
  have bound (id : Nat) : t.lookupId? name = some id ↔
      ∃ x, (placed none ds)[id]? = some x ∧ Declares x name := by
    rw [h.rooted.lookupId?_eq, h.gains.binds, ← names_iff]
    simp [ScopeTable.length_symbols_empty, show ScopeTable.empty.localId? name = none from rfl]
  have stands {id : Nat} {x : Option String × Declaration} (here : (placed none ds)[id]? = some x) :
      t.symbols[id]? = x.2.symbol? (typeOf ds) x.1 := by
    simpa [ScopeTable.length_symbols_empty] using (h.gains.symbol here).1
  rw [ScopeTable.lookup?, Option.bind_eq_some_iff]
  constructor
  · rintro ⟨id, found, there⟩
    obtain ⟨x, here, declares⟩ := (bound id).mp found
    exact ⟨x, List.mem_of_getElem? here, declares, (stands here).symm.trans there⟩
  · rintro ⟨x, mem, declares, symbol⟩
    obtain ⟨id, here⟩ := List.mem_iff_getElem?.mp mem
    exact ⟨id, (bound id).mpr ⟨x, here, declares⟩, (stands here).trans symbol⟩

end Tabled

end ExprCheck
