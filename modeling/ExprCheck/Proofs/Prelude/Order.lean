import ExprCheck.Proofs.Declaration.Reading
import ExprCheck.Proofs.Prelude.Lookup
/-! The order of declarations. Two lists of declarations may differ in their order and in where the
declarations stand in their texts, as long as each is below the same module in both. Main statement:
then both have a table or none has, and every name stands for the same symbol in both tables but for
spans. -/
namespace ExprCheck

/-- The lists have the same declarations below the same modules, whatever their order and spans. -/
def Reordered (ds ds' : List Declaration) : Prop :=
  (placed none (ds.map Declaration.bare)).Perm (placed none (ds'.map Declaration.bare))

theorem Reordered.symm {ds ds' : List Declaration} (h : Reordered ds ds') : Reordered ds' ds :=
  List.Perm.symm h

/-! ## Spans -/

def ParamSpec.bare (spec : ParamSpec) : ParamSpec :=
  { spec with span := .point 0 }

def ParamList.bare (ps : ParamList) : ParamList :=
  ps.map fun p => (p.1, p.2.bare)

def Symbol.bare : Symbol → Symbol
  | function name ps returns _ => .function name ps.bare returns (.point 0)
  | .struct name full fields _ => .struct name full fields.bare (.point 0)
  | var name ty _ => .var name ty (.point 0)

theorem Declared.name?_bare (d : Declared) : d.bare.name? = d.name? := by
  cases d <;> rfl

theorem Declared.params_bare (d : Declared) : d.bare.params = d.params.map Param.bare := by
  cases d <;> rfl

theorem Declared.annotations_bare (d : Declared) : d.bare.annotations = d.annotations := by
  have own : d.bare.annotation? = d.annotation? := by cases d <;> rfl
  rw [annotations, params_bare, own, List.filterMap_map]
  rfl

theorem paramList_bare (find : String → Option Ty) (ps : List Param) :
    paramList find (ps.map Param.bare) = (paramList find ps).bare := by
  simp only [paramList, ParamList.bare, List.map_map]
  rfl

theorem Declaration.symbol?_bare (find : String → Option Ty) (module? : Option String)
    (d : Declaration) : d.bare.symbol? find module? = (d.symbol? find module?).map Symbol.bare := by
  obtain ⟨declared, span⟩ := d
  cases declared with
  | inModule | var => rfl
  | function | struct =>
    simp [Declaration.bare, Declared.bare, Declaration.symbol?, Symbol.bare, paramList_bare]

theorem placed_bare (module? : Option String) (ds : List Declaration) :
    placed module? (ds.map Declaration.bare) =
      (placed module? ds).map fun x => (x.1, x.2.bare) := by
  induction ds generalizing module? with
  | nil => rfl
  | cons d rest ih =>
    obtain ⟨declared, span⟩ := d
    cases declared with
    | inModule path => exact ih (some path)
    | function | struct | var => exact congrArg (List.cons _) (ih module?)

theorem structureNames_bare (module? : Option String) (ds : List Declaration) :
    structureNames module? (ds.map Declaration.bare) = structureNames module? ds := by
  induction ds generalizing module? with
  | nil => rfl
  | cons d rest ih =>
    obtain ⟨declared, span⟩ := d
    cases declared with
    | inModule path => exact ih (some path)
    | struct => exact congrArg (List.cons _) (ih module?)
    | function | var => exact ih module?

theorem localNames_eq (module? : Option String) (ds : List Declaration) :
    localNames ds =
      (placed module? (ds.map Declaration.bare)).flatMap fun x => x.2.declared.name?.toList := by
  induction ds generalizing module? with
  | nil => rfl
  | cons d rest ih =>
    obtain ⟨declared, span⟩ := d
    cases declared with
    | inModule path => exact ih (some path)
    | function | struct | var => exact congrArg (List.cons _) (ih module?)

theorem declares_bare_iff {x : Option String × Declaration} {name : String} :
    Declares (x.1, x.2.bare) name ↔ Declares x name := by
  unfold Declares Declaration.bare
  rw [Declared.name?_bare]

/-! ## Well-formed lists -/

theorem keeps_bare_iff {denotes : String → Ty → Prop} {d : Declared} :
    Keeps denotes d.bare ↔ Keeps denotes d := by
  have names : d.bare.params.map Param.name = d.params.map Param.name := by
    rw [Declared.params_bare, List.map_map]
    rfl
  constructor
  · rintro ⟨params, types, defaults, order⟩
    refine ⟨names ▸ params, Declared.annotations_bare d ▸ types, fun p mem => ?_, ?_⟩
    · have among : p.bare ∈ d.bare.params := by
        rw [Declared.params_bare]
        exact List.mem_map_of_mem mem
      exact defaults p.bare among
    · rintro name ps returns? rfl
      exact List.pairwise_map.mp (order name (ps.map Param.bare) returns? rfl)
  · rintro ⟨params, types, defaults, order⟩
    refine ⟨names.symm ▸ params, (Declared.annotations_bare d).symm ▸ types, fun p mem => ?_, ?_⟩
    · rw [Declared.params_bare] at mem
      obtain ⟨q, among, rfl⟩ := List.mem_map.mp mem
      exact defaults q among
    · intro name ps returns? same
      cases d with
      | function _ qs _ =>
        cases same
        exact List.pairwise_map.mpr (order name qs returns? rfl)
      | inModule | struct | var => cases same

theorem keeps_of_unnamed {denotes : String → Ty → Prop} {d : Declared} (unnamed : d.name? = none) :
    Keeps denotes d := by
  cases d with
  | inModule path => exact ⟨.nil, nofun, nofun, nofun⟩
  | function | struct | var => cases unnamed

namespace Reordered

variable {ds ds' : List Declaration}

theorem exists_placed (h : Reordered ds ds') {x' : Option String × Declaration}
    (mem : x' ∈ placed none ds') : ∃ x ∈ placed none ds, x.1 = x'.1 ∧ x.2.bare = x'.2.bare := by
  have among : (x'.1, x'.2.bare) ∈ placed none (ds.map Declaration.bare) := by
    rw [h.mem_iff, placed_bare]
    exact List.mem_map_of_mem mem
  rw [placed_bare] at among
  obtain ⟨x, here, same⟩ := List.mem_map.mp among
  exact ⟨x, here, Prod.mk.inj same⟩

theorem structureNames_mem (h : Reordered ds ds') {names : String × String}
    (declared : names ∈ structureNames none ds) : names ∈ structureNames none ds' := by
  rw [← structureNames_bare, mem_structureNames_iff] at declared ⊢
  obtain ⟨module?, fields, span, mem, full⟩ := declared
  exact ⟨module?, fields, span, h.mem_iff.mp mem, full⟩

theorem denotes (h : Reordered ds ds') {text : String} {ty : Ty} (denotes : Denotes ds text ty) :
    Denotes ds' text ty := by
  cases denotes with
  | builtIn name => exact .builtIn name
  | struct other declared either => exact .struct other (h.structureNames_mem declared) either

theorem denotes_iff (h : Reordered ds ds') {text : String} {ty : Ty} :
    Denotes ds text ty ↔ Denotes ds' text ty :=
  ⟨h.denotes, h.symm.denotes⟩

theorem wellFormed (h : Reordered ds ds') (ok : WellFormed ds) : WellFormed ds' := by
  obtain ⟨names, keeps⟩ := wellFormed_iff_keeps.mp ok
  have denotes : Denotes ds' = Denotes ds := by
    funext text ty
    exact propext h.denotes_iff.symm
  rw [wellFormed_iff_keeps, denotes]
  refine ⟨?_, fun d' mem => ?_⟩
  · rw [localNames_eq none] at names ⊢
    exact (h.flatMap_right _).nodup_iff.mp names
  · -- a module statement is not placed, so the lists say nothing of it; it keeps all rules by itself
    cases named : d'.declared.name? with
    | none => exact keeps_of_unnamed named
    | some name =>
      obtain ⟨module?, here'⟩ : ∃ module?, (module?, d') ∈ placed none ds' :=
        exists_mem_placed mem (by simp [named])
      obtain ⟨x, here, -, same⟩ := h.exists_placed here'
      obtain ⟨among, -⟩ := exists_name_of_mem_placed here
      have bare : x.2.declared.bare = d'.declared.bare := congrArg Declaration.declared same
      exact keeps_bare_iff.mp (bare ▸ keeps_bare_iff.mpr (keeps x.2 among))

end Reordered

/-! ## Tables -/

namespace Tabled

variable {ds ds' : List Declaration} {t t' : ScopeTable}

theorem lookup?_bare_eq_some_iff (h : Tabled ds t) {name : String} {s : Symbol} :
    (t.lookup? name).map Symbol.bare = some s ↔
      ∃ x ∈ placed none (ds.map Declaration.bare), Declares x name ∧
        x.2.symbol? (typeOf ds) x.1 = some s := by
  rw [Option.map_eq_some_iff, placed_bare]
  constructor
  · rintro ⟨s, found, rfl⟩
    obtain ⟨x, mem, declares, symbol⟩ := h.lookup?_eq_some_iff.mp found
    refine ⟨(x.1, x.2.bare), List.mem_map_of_mem mem, declares_bare_iff.mpr declares, ?_⟩
    rw [Declaration.symbol?_bare, symbol]
    rfl
  · rintro ⟨y, mem, declares, symbol⟩
    obtain ⟨x, here, rfl⟩ := List.mem_map.mp mem
    rw [Declaration.symbol?_bare] at symbol
    obtain ⟨s, stands, bare⟩ := Option.map_eq_some_iff.mp symbol
    exact ⟨s, h.lookup?_eq_some_iff.mpr ⟨x, here, declares_bare_iff.mp declares, stands⟩, bare⟩

theorem typeOf_reordered (h : Tabled ds t) (h' : Tabled ds' t') (same : Reordered ds ds') :
    typeOf ds = typeOf ds' := by
  funext text
  apply Option.ext
  intro ty
  rw [h.typeOf_eq_some_iff, h'.typeOf_eq_some_iff, same.denotes_iff]

theorem lookup?_reordered (h : Tabled ds t) (h' : Tabled ds' t') (same : Reordered ds ds')
    (name : String) : (t.lookup? name).map Symbol.bare = (t'.lookup? name).map Symbol.bare := by
  apply Option.ext
  intro s
  rw [h.lookup?_bare_eq_some_iff, h'.lookup?_bare_eq_some_iff, h.typeOf_reordered h' same]
  simp only [same.mem_iff]

end Tabled

/-- Declarations that are put into another order, each below its module, are taken in as they were
before, and their names stand for the same symbols but for spans. -/
theorem ofDeclarations_reordered {source source' : String} {ds ds' : List Declaration}
    (read : readDeclarations source = .ok ds) (read' : readDeclarations source' = .ok ds')
    (same : Reordered ds ds') :
    ((∃ t, ScopeTable.ofDeclarations ds = .ok t) ↔
        ∃ t', ScopeTable.ofDeclarations ds' = .ok t') ∧
      ∀ t t', ScopeTable.ofDeclarations ds = .ok t → ScopeTable.ofDeclarations ds' = .ok t' →
        ∀ name, (t.lookup? name).map Symbol.bare = (t'.lookup? name).map Symbol.bare := by
  have dotless := dotless_of_readDeclarations read
  have dotless' := dotless_of_readDeclarations read'
  constructor
  · rw [ofDeclarations_ok_iff dotless, ofDeclarations_ok_iff dotless']
    exact ⟨same.wellFormed, same.symm.wellFormed⟩
  · intro t t' accepted accepted'
    have tabled : Tabled ds t := ⟨accepted, dotless⟩
    exact tabled.lookup?_reordered ⟨accepted', dotless'⟩ same

/- The module is named again, and the structure now stands before the annotation that names it. -/
theorem ofDeclarations_reordered_modules :
    ∃ ds ds', readDeclarations "module m\nlet a: P\nstruct P(x = 1)" = .ok ds ∧
      readDeclarations "module m\nstruct P(x = 1)\nmodule m\nlet a: P" = .ok ds' ∧
      ∃ t t', ScopeTable.ofDeclarations ds = .ok t ∧ ScopeTable.ofDeclarations ds' = .ok t' ∧
        ∀ name, (t.lookup? name).map Symbol.bare = (t'.lookup? name).map Symbol.bare := by
  let ds : List Declaration :=
    [⟨.inModule "m", ⟨0, 8⟩⟩, ⟨.var "a" (some "P"), ⟨9, 17⟩⟩,
      ⟨.struct "P" [⟨"x", none, some (.number "1"), ⟨27, 32⟩⟩], ⟨18, 33⟩⟩]
  let ds' : List Declaration :=
    [⟨.inModule "m", ⟨0, 8⟩⟩, ⟨.struct "P" [⟨"x", none, some (.number "1"), ⟨18, 23⟩⟩], ⟨9, 24⟩⟩,
      ⟨.inModule "m", ⟨25, 33⟩⟩, ⟨.var "a" (some "P"), ⟨34, 42⟩⟩]
  have read : readDeclarations "module m\nlet a: P\nstruct P(x = 1)" = .ok ds := by
    with_unfolding_all rfl
  have read' : readDeclarations "module m\nstruct P(x = 1)\nmodule m\nlet a: P" = .ok ds' := by
    with_unfolding_all rfl
  have same : Reordered ds ds' := List.Perm.swap _ _ _
  let t : ScopeTable := (Prelude.empty.extend ds).2.table
  let t' : ScopeTable := (Prelude.empty.extend ds').2.table
  have accepted : ScopeTable.ofDeclarations ds = .ok t := rfl
  have accepted' : ScopeTable.ofDeclarations ds' = .ok t' := rfl
  exact ⟨ds, ds', read, read', t, t', accepted, accepted',
    (ofDeclarations_reordered read read' same).2 t t' accepted accepted'⟩

end ExprCheck
