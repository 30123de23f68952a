import ExprCheck.Prelude
import ExprCheck.Proofs.Literal
/-! What annotations denote. The types of a list of declarations are said here without the pass that
collects them: a structure has its local name and, below a module, its full name. Main statement:
after that pass, a type is found for an annotation exactly if the annotation denotes one. -/
namespace ExprCheck

def fullName (module? : Option String) (name : String) : String :=
  match module? with
  | some path => path ++ "." ++ name
  | none => name

/-- The local and the full names of the structures that are declared, below the module given or the
last one named before them. -/
def structureNames (module? : Option String) : List Declaration → List (String × String)
  | [] => []
  | d :: rest =>
      match d.declared with
      | .inModule path => structureNames (some path) rest
      | .struct name _ => (name, fullName module? name) :: structureNames module? rest
      | _ => structureNames module? rest

/-- The annotation is the name of a built-in type, or one of the names of a structure that is
declared anywhere in the list. -/
inductive Denotes (ds : List Declaration) : String → Ty → Prop
  | builtIn {text : String} {ty : Ty} (name : Ty.ofName? text = some ty) : Denotes ds text ty
  | struct {text name full : String} (other : Ty.ofName? text = none)
      (declared : (name, full) ∈ structureNames none ds) (either : text = name ∨ text = full) :
      Denotes ds text (.named full)

theorem Literal.ty_ne_named (value : Literal) (full : String) : value.ty ≠ .named full := by
  intro same
  cases value with
  | str raw =>
    change (unquote raw).2 = _ at same
    rcases unquote_ty raw with isStr | isChar
    · cases isStr.symm.trans same
    · cases isChar.symm.trans same
  | number raw =>
    change Ty.ofNumber raw = _ at same
    rcases Ty.ofNumber_numeric raw with ⟨ty, numeric⟩ | ⟨ty, numeric⟩
    · cases numeric.symm.trans same
    · cases numeric.symm.trans same
  | bool => cases same

namespace Prelude

theorem qualify_eq_fullName (pre : Prelude) (name : String) :
    pre.qualify name = fullName pre.module? name :=
  rfl

theorem structures_foldl_collect (ds : List Declaration) (pre : Prelude) :
    ∃ new, (ds.foldl collect pre).structures = new ++ pre.structures ∧
      ∀ text full, (text, full) ∈ new ↔
        ∃ name, (name, full) ∈ structureNames pre.module? ds ∧ (text = name ∨ text = full) := by
  induction ds generalizing pre with
  | nil => exact ⟨[], rfl, by simp [structureNames]⟩
  | cons d rest ih =>
    obtain ⟨new, whole, entries⟩ := ih (pre.collect d)
    rw [List.foldl_cons, whole]
    obtain ⟨declared, span⟩ := d
    cases declared with
    | inModule | function | var => exact ⟨new, rfl, entries⟩
    | struct name fields =>
      refine ⟨new ++ [(name, pre.qualify name), (pre.qualify name, pre.qualify name)],
        by simp [collect], fun text full => ?_⟩
      simp only [structureNames, List.mem_append, List.mem_cons, List.not_mem_nil, or_false,
        entries, collect, qualify_eq_fullName, Prod.mk.injEq]
      constructor
      · rintro (⟨other, later, either⟩ | ⟨rfl, rfl⟩ | ⟨rfl, rfl⟩)
        · exact ⟨other, .inr later, either⟩
        · exact ⟨text, .inl ⟨rfl, rfl⟩, .inl rfl⟩
        · exact ⟨name, .inl ⟨rfl, rfl⟩, .inr rfl⟩
      · rintro ⟨other, ⟨rfl, rfl⟩ | later, rfl | rfl⟩
        · exact .inr (.inl ⟨rfl, rfl⟩)
        · exact .inr (.inr ⟨rfl, rfl⟩)
        · exact .inl ⟨text, later, .inl rfl⟩
        · exact .inl ⟨other, later, .inr rfl⟩

/-- The table of structures is the one that the collecting pass leaves for the list. -/
def Collected (pre : Prelude) (ds : List Declaration) : Prop :=
  ∀ text full, (text, full) ∈ pre.structures ↔
    ∃ name, (name, full) ∈ structureNames none ds ∧ (text = name ∨ text = full)

theorem collected_foldl_collect (ds : List Declaration) :
    (ds.foldl collect empty).Collected ds := by
  intro text full
  obtain ⟨new, whole, entries⟩ := structures_foldl_collect ds empty
  rw [whole]
  simpa [empty] using entries text full

theorem denotes_of_findType? {pre : Prelude} {ds : List Declaration} (h : pre.Collected ds)
    {text : String} {ty : Ty} (found : pre.findType? text = some ty) : Denotes ds text ty := by
  rcases Option.or_eq_some_iff.mp found with name | ⟨other, struct⟩
  · exact .builtIn name
  · obtain ⟨⟨key, full⟩, first, rfl⟩ := Option.map_eq_some_iff.mp struct
    have same : key = text := by simpa using List.find?_some first
    obtain ⟨name, declared, either⟩ := (h key full).mp (List.mem_of_find?_eq_some first)
    exact .struct other declared (same ▸ either)

theorem findType?_isSome_iff {pre : Prelude} {ds : List Declaration} (h : pre.Collected ds)
    {text : String} : (pre.findType? text).isSome ↔ ∃ ty, Denotes ds text ty := by
  constructor
  · intro found
    obtain ⟨ty, found⟩ := Option.isSome_iff_exists.mp found
    exact ⟨ty, denotes_of_findType? h found⟩
  · rintro ⟨ty, denotes⟩
    cases denotes with
    | builtIn name => simp [findType?, name]
    | @struct name full other declared either =>
      have mem := (h text full).mpr ⟨name, declared, either⟩
      have found : (pre.structures.find? (·.1 = text)).isSome :=
        List.find?_isSome.mpr ⟨_, mem, by simp⟩
      simp [findType?, found]

theorem findType?_eq_ty_iff {pre : Prelude} {ds : List Declaration} (h : pre.Collected ds)
    {text : String} {value : Literal} :
    pre.findType? text = some value.ty ↔ Denotes ds text value.ty := by
  refine ⟨denotes_of_findType? h, fun denotes => ?_⟩
  generalize same : value.ty = ty at denotes
  cases denotes with
  | builtIn name => simp [findType?, name]
  | struct => exact absurd same (value.ty_ne_named _)

end Prelude

end ExprCheck
