import ExprCheck.Program
import ExprCheck.Proofs.Prelude.Symbols
/-! What a prelude refers to. Main statement: in the table of a prelude every type that is not
built-in is one structure, found under its full name; every symbol is found under its names; and a
result is unknown exactly if its declaration has no annotation. -/
namespace ExprCheck

theorem Ty.ofName?_ne_named (text full : String) : Ty.ofName? text ≠ some (.named full) := by
  intro found
  rcases Option.or_eq_some_iff.mp found with int | ⟨-, rest⟩
  · obtain ⟨ty, -, same⟩ := Option.map_eq_some_iff.mp int
    cases same
  · rcases Option.or_eq_some_iff.mp rest with float | ⟨-, plain⟩
    · obtain ⟨ty, -, same⟩ := Option.map_eq_some_iff.mp float
      cases same
    · have mem : Ty.named full ∈ Ty.plain := List.mem_of_find?_eq_some plain
      simp [Ty.plain] at mem

namespace Symbol

def params : Symbol → ParamList
  | function _ ps _ _ => ps
  | .struct _ _ fields _ => fields
  | var .. => []

def result? : Symbol → Option ResultType
  | function _ _ returns _ => some returns
  | .struct .. => none
  | var _ ty _ => some ty

def structure? : Symbol → Option String
  | .struct _ full _ _ => some full
  | function .. | var .. => none

def types (s : Symbol) : List Ty :=
  s.params.filterMap (·.2.expected.known?) ++ (s.result?.bind ResultType.known?).toList

end Symbol

namespace Declared

def kind? : Declared → Option SymbolKind
  | inModule _ => none
  | function .. => some .function
  | struct .. => some .struct
  | var .. => some .var

def structure? (module? : Option String) : Declared → Option String
  | struct name _ => some (fullName module? name)
  | inModule _ | function .. | var .. => none

end Declared

/-- The declaration below the module introduces the symbol, whatever types its annotations have. -/
structure Declaration.Introduces (d : Declaration) (module? : Option String) (s : Symbol) :
    Prop where
  name : d.declared.name? = some s.name
  kind : d.declared.kind? = some s.kind
  full : d.declared.structure? module? = s.structure?
  span : d.span = s.span

theorem Declaration.introduces_of_symbol? {d : Declaration} {find : String → Option Ty}
    {module? : Option String} {s : Symbol} (stands : d.symbol? find module? = some s) :
    d.Introduces module? s ∧ s.params = paramList find d.declared.params ∧
      ∀ result ∈ s.result?, result = annotated find d.declared.annotation? := by
  obtain ⟨declared, span⟩ := d
  cases declared with
  | inModule => cases stands
  | function | var =>
    cases stands
    exact ⟨⟨rfl, rfl, rfl, rfl⟩, rfl, fun result mem => (Option.some.inj mem).symm⟩
  | struct =>
    cases stands
    exact ⟨⟨rfl, rfl, rfl, rfl⟩, rfl, nofun⟩

theorem Param.annotation_of_named {find : String → Option Ty} {p : Param} {full : String}
    (named : (p.spec find).expected.known? = some (.named full)) :
    ∃ text ∈ p.ty?, find text = some (.named full) := by
  unfold ParamSpec.expected Param.spec at named
  cases bound : p.ty?.bind find with
  | some ty =>
    rw [bound] at named
    cases named
    exact Option.bind_eq_some_iff.mp bound
  | none =>
    rw [bound] at named
    cases default : p.default? with
    | none =>
      rw [default] at named
      cases named
    | some value =>
      rw [default] at named
      have same : value.ty = .named full := Option.some.inj named
      exact absurd same (value.ty_ne_named full)

theorem annotation_of_named {find : String → Option Ty} {ty? : Option String} {full : String}
    (named : annotated find ty? = .known (.named full)) :
    ∃ text ∈ ty?, find text = some (.named full) := by
  unfold annotated at named
  cases bound : ty?.bind find with
  | some ty =>
    rw [bound] at named
    cases named
    exact Option.bind_eq_some_iff.mp bound
  | none =>
    rw [bound] at named
    cases named

theorem Declaration.annotation_of_mem_types {d : Declaration} {find : String → Option Ty}
    {module? : Option String} {s : Symbol} (stands : d.symbol? find module? = some s)
    {full : String} (mem : Ty.named full ∈ s.types) :
    ∃ text ∈ d.declared.annotations, find text = some (.named full) := by
  obtain ⟨-, listed, results⟩ := Declaration.introduces_of_symbol? stands
  rcases List.mem_append.mp mem with param | result
  · obtain ⟨⟨name, spec⟩, among, named⟩ := List.mem_filterMap.mp param
    rw [listed] at among
    obtain ⟨p, here, same⟩ := List.mem_map.mp among
    cases same
    obtain ⟨text, given, found⟩ := Param.annotation_of_named named
    exact ⟨text, List.mem_append_left _ (List.mem_filterMap.mpr ⟨p, here, given⟩), found⟩
  · obtain ⟨result, given, known⟩ := Option.bind_eq_some_iff.mp (Option.mem_toList.mp result)
    have named : result = .known (.named full) := by
      cases result with
      | known ty => exact congrArg ResultType.known (Option.some.inj known)
      | own | undetermined => cases known
    obtain ⟨text, own, found⟩ := annotation_of_named ((results result given).symm.trans named)
    exact ⟨text, List.mem_append_right _ (Option.mem_toList.mpr own), found⟩

namespace ScopeTable

/-- The symbol with the number is the structure of the full name. -/
def IsStruct (t : ScopeTable) (full : String) (id : Nat) : Prop :=
  ∃ s, t.symbols[id]? = some s ∧ s.structure? = some full

/-- The names in a table stand for the declarations: each declaration has introduced the symbol of
its number, which its names are bound to, and the types of the symbols are structures of the
table. -/
structure Refers (t : ScopeTable) (ds : List (Option String × Declaration)) : Prop where
  size : t.symbols.length = ds.length
  types : ∀ s ∈ t.symbols, ∀ full, .named full ∈ s.types →
    ∃ id, t.lookupId? full = some id ∧ ∀ other, t.IsStruct full other ↔ other = id
  names : ∀ id module? d, ds[id]? = some (module?, d) →
    ∃ s, t.symbols[id]? = some s ∧ d.Introduces module? s ∧ t.lookupId? s.name = some id ∧
      ∀ path ∈ module?, t.lookupId? (path ++ "." ++ s.name) = some id
  results : ∀ (id : Nat) module? d s, ds[id]? = some (module?, d) → t.symbols[id]? = some s →
    ∀ result ∈ s.result?, result = .undetermined ↔ d.declared.annotation? = none

namespace Gains

variable {find : String → Option Ty} {t t' : ScopeTable} {ds : List (Option String × Declaration)}

theorem isStruct_iff (h : Gains find t ds t') {full : String} {i : Nat} :
    t'.IsStruct full (t.symbols.length + i) ↔
      ∃ module? d, ds[i]? = some (module?, d) ∧ d.declared.structure? module? = some full := by
  constructor
  · rintro ⟨s, there, struct⟩
    obtain ⟨inside, -⟩ := List.getElem?_eq_some_iff.mp there
    rw [h.length_symbols] at inside
    have here : ds[i]? = some ds[i] := List.getElem?_eq_getElem (by omega)
    have stands := (h.symbol here).1.symm.trans there
    obtain ⟨introduces, -⟩ := Declaration.introduces_of_symbol? stands
    exact ⟨ds[i].1, ds[i].2, here, introduces.full.trans struct⟩
  · rintro ⟨module?, d, here, struct⟩
    obtain ⟨there, isSome⟩ := h.symbol here
    obtain ⟨s, stands⟩ := Option.isSome_iff_exists.mp isSome
    obtain ⟨introduces, -⟩ := Declaration.introduces_of_symbol? stands
    exact ⟨s, there.trans stands, introduces.full.symm.trans struct⟩

theorem localId?_of_isStruct (h : Gains find t ds t') {full : String} {i : Nat}
    (struct : t'.IsStruct full (t.symbols.length + i)) :
    t'.localId? full = some (t.symbols.length + i) := by
  obtain ⟨module?, ⟨declared, span⟩, here, same⟩ := h.isStruct_iff.mp struct
  cases declared with
  | inModule | function | var => cases same
  | struct name fields =>
    exact (h.binds full _).mpr
      (.inr ⟨i, rfl, module?, _, name, here, rfl, .inr (Option.some.inj same).symm⟩)

end Gains

end ScopeTable

theorem annotated_eq_undetermined_iff {find : String → Option Ty} {ty? : Option String}
    (known : ∀ text ∈ ty?, (find text).isSome) :
    annotated find ty? = .undetermined ↔ ty? = none := by
  cases ty? with
  | none => exact iff_of_true rfl rfl
  | some text =>
    obtain ⟨ty, found⟩ := Option.isSome_iff_exists.mp (known text rfl)
    have result : annotated find (some text) = .known ty := by simp [annotated, found]
    rw [result]
    exact iff_of_false nofun nofun

namespace ScopeTable

theorem length_symbols_empty : empty.symbols.length = 0 :=
  rfl

/-- A table that has gained its symbols over none refers to their declarations. -/
theorem Gains.refers {find : String → Option Ty} {ds : List Declaration} {t : ScopeTable}
    (h : empty.Gains find (placed none ds) t) (rooted : t.Rooted)
    (denotes : ∀ text ty, find text = some ty → Denotes ds text ty)
    (known : ∀ d ∈ ds, ∀ text ∈ d.declared.annotations, (find text).isSome) :
    t.Refers (placed none ds) := by
  have size : t.symbols.length = (placed none ds).length := by
    rw [h.length_symbols, length_symbols_empty, Nat.zero_add]
  have stands (id : Nat) (x : Option String × Declaration) (here : (placed none ds)[id]? = some x) :
      t.symbols[id]? = x.2.symbol? find x.1 ∧ (x.2.symbol? find x.1).isSome := by
    simpa [length_symbols_empty] using h.symbol here
  have leads (full : String) (id : Nat) (struct : t.IsStruct full id) :
      t.lookupId? full = some id := by
    rw [rooted.lookupId?_eq]
    simpa [length_symbols_empty] using
      h.localId?_of_isStruct (i := id) (by simpa [length_symbols_empty] using struct)
  refine ⟨size, fun s mem full named => ?_, fun id module? d here => ?_, ?_⟩
  · obtain ⟨id, there⟩ := List.mem_iff_getElem?.mp mem
    have inside : id < (placed none ds).length := by
      rw [← size]
      exact (List.getElem?_eq_some_iff.mp there).1
    have same := (stands id _ (List.getElem?_eq_getElem inside)).1.symm.trans there
    obtain ⟨text, -, found⟩ := Declaration.annotation_of_mem_types same named
    cases denotes text _ found with
    | builtIn name => exact absurd name (Ty.ofName?_ne_named text full)
    | @struct name _ other declared either =>
      obtain ⟨below?, fields, span, among, rfl⟩ := mem_structureNames_iff.mp declared
      obtain ⟨target, here⟩ := List.mem_iff_getElem?.mp among
      have struct : t.IsStruct (fullName below? name) target := by
        simpa [length_symbols_empty] using h.isStruct_iff.mpr ⟨below?, _, here, rfl⟩
      have found := leads _ target struct
      refine ⟨target, found, fun other => ⟨fun also => ?_, fun same => same ▸ struct⟩⟩
      exact Option.some.inj ((leads _ other also).symm.trans found)
  · obtain ⟨there, isSome⟩ := stands id _ here
    obtain ⟨s, symbol⟩ := Option.isSome_iff_exists.mp isSome
    obtain ⟨introduces, -⟩ := Declaration.introduces_of_symbol? symbol
    -- Both names of the declaration lead to its symbol.
    have bound (name : String) (either : name = s.name ∨ name = fullName module? s.name) :
        t.lookupId? name = some id := by
      rw [rooted.lookupId?_eq, h.binds]
      exact .inr ⟨id, (Nat.zero_add id).symm, module?, d, s.name, here, introduces.name, either⟩
    refine ⟨s, there.trans symbol, introduces, bound _ (.inl rfl), ?_⟩
    rintro path rfl
    exact bound _ (.inr rfl)
  · intro id module? d s here there result given
    obtain ⟨-, -, results⟩ :=
      Declaration.introduces_of_symbol? ((stands id _ here).1.symm.trans there)
    obtain ⟨among, -⟩ := exists_name_of_mem_placed (List.mem_of_getElem? here)
    rw [results result given]
    refine annotated_eq_undetermined_iff fun text own => known d among text ?_
    exact List.mem_append_right _ (Option.mem_toList.mpr own)

end ScopeTable

theorem readPrelude_eq_ok_iff {source : String} {table : ScopeTable} :
    readPrelude source = .ok table ↔
      ∃ ds, readDeclarations source = .ok ds ∧ ScopeTable.ofDeclarations ds = .ok table := by
  unfold readPrelude
  cases readDeclarations source with
  | error e => simp
  | ok ds => simp [mapError_eq_ok_iff]

/-- The table of a prelude refers to what the prelude declares. -/
theorem refers_of_readPrelude {source : String} {table : ScopeTable}
    (read : readPrelude source = .ok table) :
    ∃ ds, readDeclarations source = .ok ds ∧ table.Refers (placed none ds) := by
  obtain ⟨ds, declared, accepted⟩ := readPrelude_eq_ok_iff.mp read
  have wellFormed := (ofDeclarations_ok_iff (dotless_of_readDeclarations declared)).mp ⟨_, accepted⟩
  obtain ⟨ok, rfl⟩ := ScopeTable.ofDeclarations_eq_ok_iff.mp accepted
  have collected := Prelude.collected_foldl_collect ds
  have gains := Prelude.extend_gains ScopeTable.rooted_empty ok
  refine ⟨ds, declared, gains.refers (Prelude.extend_rooted ScopeTable.rooted_empty ds)
    (fun text ty => Prelude.denotes_of_findType? collected) fun d mem text annotation => ?_⟩
  exact (Prelude.findType?_isSome_iff collected).mpr (wellFormed.types d mem text annotation)

/- A type refers to a structure that is declared later, with its module in front. -/
theorem refers_of_readPrelude_later :
    ∃ table ds, readPrelude "module m\nlet a: m.P\nstruct P(x = 1)" = .ok table ∧
      readDeclarations "module m\nlet a: m.P\nstruct P(x = 1)" = .ok ds ∧
      (∃ s ∈ table.symbols, .named "m.P" ∈ s.types) ∧ table.Refers (placed none ds) := by
  have holds : (readPrelude "module m\nlet a: m.P\nstruct P(x = 1)").toOption.any fun table =>
      table.symbols.any fun s => s.types.contains (.named "m.P") := by
    with_unfolding_all rfl
  cases read : readPrelude "module m\nlet a: m.P\nstruct P(x = 1)" with
  | error e =>
    rw [read] at holds
    cases holds
  | ok table =>
    rw [read] at holds
    obtain ⟨s, mem, named⟩ := List.any_eq_true.mp holds
    obtain ⟨ds, declared, refers⟩ := refers_of_readPrelude read
    exact ⟨table, ds, rfl, declared, ⟨s, mem, List.contains_iff_mem.mp named⟩, refers⟩

end ExprCheck
