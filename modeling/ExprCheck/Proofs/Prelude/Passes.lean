import Mathlib.Data.List.Induction
import ExprCheck.Proofs.Prelude.References
/-! The two passes over a list of declarations. The collecting pass starts below the module that the
list before ended in, the defining pass below none. Main statement: an annotation gets the type of
the structure that the same list declares, for every list that is taken in after others, exactly if
the list before ended below no module or no annotation has the local name of a structure that stands
before the first module. -/
namespace ExprCheck

/-- The declarations that stand before the first module. -/
def leading (ds : List Declaration) : List Declaration :=
  ds.takeWhile fun d => d.declared.name?.isSome

theorem placed_eq_append (ds : List Declaration) :
    ∃ rest, ∀ module?, placed module? ds = (leading ds).map (fun d => (module?, d)) ++ rest := by
  induction ds with
  | nil => exact ⟨[], fun _ => rfl⟩
  | cons d below ih =>
    obtain ⟨rest, same⟩ := ih
    obtain ⟨declared, span⟩ := d
    cases declared with
    | inModule path => exact ⟨placed (some path) below, fun _ => rfl⟩
    | function | struct | var =>
      refine ⟨rest, fun module? => ?_⟩
      simp only [placed, same]
      rfl

theorem placed_getElem? {module? : Option String} {ds : List Declaration} {i : Nat}
    {below? : Option String} {d : Declaration}
    (here : (placed module? ds)[i]? = some (below?, d)) :
    (below? = module? ∧ d ∈ leading ds ∧ ∀ other?, (placed other? ds)[i]? = some (other?, d)) ∨
      ∀ other?, (placed other? ds)[i]? = some (below?, d) := by
  obtain ⟨rest, same⟩ := placed_eq_append ds
  rw [same] at here
  by_cases early : i < (leading ds).length
  · rw [List.getElem?_append_left (by simpa using early), List.getElem?_map] at here
    obtain ⟨d', found, pair⟩ := Option.map_eq_some_iff.mp here
    cases pair
    refine .inl ⟨rfl, List.mem_of_getElem? found, fun other? => ?_⟩
    rw [same, List.getElem?_append_left (by simpa using early), List.getElem?_map, found]
    rfl
  · have late : (leading ds).length ≤ i := Nat.le_of_not_lt early
    rw [List.getElem?_append_right (by simpa using late), List.length_map] at here
    refine .inr fun other? => ?_
    rwa [same, List.getElem?_append_right (by simpa using late), List.length_map]

theorem exists_getElem?_of_leading {ds : List Declaration} {d : Declaration}
    (mem : d ∈ leading ds) : ∃ i : Nat, ∀ module?, (placed module? ds)[i]? = some (module?, d) := by
  obtain ⟨rest, same⟩ := placed_eq_append ds
  obtain ⟨i, here⟩ := List.mem_iff_getElem?.mp mem
  obtain ⟨early, -⟩ := List.getElem?_eq_some_iff.mp here
  refine ⟨i, fun module? => ?_⟩
  rw [same, List.getElem?_append_left (by simpa using early), List.getElem?_map, here]
  rfl

theorem exists_mem_placed {module? : Option String} {ds : List Declaration} {d : Declaration}
    (mem : d ∈ ds) (named : d.declared.name?.isSome) :
    ∃ below?, (below?, d) ∈ placed module? ds := by
  induction ds generalizing module? with
  | nil => cases mem
  | cons first rest ih =>
    rw [placed_cons]
    rcases List.mem_cons.mp mem with rfl | later
    · obtain ⟨name, isName⟩ := Option.isSome_iff_exists.mp named
      rw [(placed_singleton isName module?).1]
      exact ⟨module?, List.mem_cons_self⟩
    · exact (ih later).imp fun below? among => List.mem_append_right _ among

/-- The annotations of a declaration with the types that its symbol has for them. -/
def readings (d : Declared) (s : Symbol) : List (String × Option Ty) :=
  ((d.params.zip s.params).filterMap fun x => x.1.ty?.map fun text => (text, x.2.2.ty?)) ++
    d.annotation?.toList.map fun text => (text, s.result?.bind ResultType.known?)

theorem known?_annotated (find : String → Option Ty) (text : String) :
    (annotated find (some text)).known? = find text := by
  unfold annotated
  rw [Option.bind_some]
  cases find text <;> rfl

theorem readings_of_symbol? {find : String → Option Ty} {module? : Option String}
    {d : Declaration} {s : Symbol} (stands : d.symbol? find module? = some s) :
    readings d.declared s = d.declared.annotations.map fun text => (text, find text) := by
  have listed (ps : List Param) :
      ((ps.zip (paramList find ps)).filterMap fun x => x.1.ty?.map fun text => (text, x.2.2.ty?)) =
        (ps.filterMap Param.ty?).map fun text => (text, find text) := by
    induction ps with
    | nil => rfl
    | cons p rest ih =>
      cases given : p.ty? with
      | none => simpa [paramList, given] using ih
      | some text => simpa [paramList, given, Param.spec] using ih
  obtain ⟨-, params, results⟩ := Declaration.introduces_of_symbol? stands
  unfold readings Declared.annotations
  rw [params, listed, List.map_append]
  congr 1
  obtain ⟨declared, span⟩ := d
  cases declared with
  | inModule => cases stands
  | struct => rfl
  | function _ _ ty? | var _ ty? =>
    cases stands
    cases ty? with
    | none => rfl
    | some text => simp [Declared.annotation?, Symbol.result?, known?_annotated]

namespace ScopeTable

/-- The declarations have the symbols from number `start` on, and an annotation that names one of
their structures has the type of that structure. A built-in type is never taken for another. -/
def Agrees (t : ScopeTable) (start : Nat) (ds : List (Option String × Declaration)) : Prop :=
  ∀ i module? d s, ds[i]? = some (module?, d) → t.symbols[start + i]? = some s →
    ∀ text ty?, (text, ty?) ∈ readings d.declared s → Ty.ofName? text = none →
      ∀ j full, t.lookupId? text = some (start + j) → t.IsStruct full (start + j) →
        ty? = some (.named full)

end ScopeTable

namespace Prelude

/-- What is known after lists have been taken in one after the other, whatever faults they had. -/
def after (lists : List (List Declaration)) : Prelude :=
  lists.foldl (fun pre ds => (pre.extend ds).2) empty

theorem after_concat (lists : List (List Declaration)) (ds : List Declaration) :
    after (lists ++ [ds]) = ((after lists).extend ds).2 := by
  simp [after]

theorem after_rooted (lists : List (List Declaration)) : (after lists).table.Rooted := by
  induction lists using List.reverseRecOn with
  | nil => exact ScopeTable.rooted_empty
  | append_singleton lists ds ih =>
    rw [after_concat]
    exact extend_rooted ih ds

theorem after_module? (lists : List (List Declaration)) :
    (after lists).module? = lists.getLast?.bind (lastModule? none) := by
  induction lists using List.reverseRecOn with
  | nil => rfl
  | append_singleton lists ds ih =>
    rw [after_concat, List.getLast?_concat, Option.bind_some]
    exact (extend_takes (after_rooted lists) ds).module?

/-- A list is taken in after others without a fault; its local names have no dot. -/
structure Follows (pre : Prelude) (ds : List Declaration) : Prop where
  rooted : pre.table.Rooted
  ok : (pre.extend ds).1 = []
  dotless : ∀ d ∈ ds, ∀ name ∈ d.declared.name?, '.' ∉ name.toList

namespace Follows

variable {pre : Prelude} {ds : List Declaration}

theorem gains (h : pre.Follows ds) :
    pre.table.Gains (ds.foldl collect pre).findType? (placed none ds) (pre.extend ds).2.table :=
  extend_gains h.rooted h.ok

theorem localId? (h : pre.Follows ds) {i : Nat} {below? : Option String} {d : Declaration}
    {alone name : String} (here : (placed none ds)[i]? = some (below?, d))
    (named : d.declared.name? = some alone) (either : name = alone ∨ name = fullName below? alone) :
    (pre.extend ds).2.table.localId? name = some (pre.table.symbols.length + i) :=
  (h.gains.binds name _).mpr (.inr ⟨i, rfl, below?, d, alone, here, named, either⟩)

theorem structure_unique (h : pre.Follows ds) {i : Nat} {module? : Option String} {name : String}
    {fields : List Param} {span : Span}
    (here : (placed pre.module? ds)[i]? = some (module?, ⟨.struct name fields, span⟩))
    {text other full : String} (either : text = name ∨ text = fullName module? name)
    (also : (other, full) ∈ structureNames pre.module? ds)
    (either' : text = other ∨ text = full) : full = fullName module? name := by
  obtain ⟨below?, fields', span', among, rfl⟩ := mem_structureNames_iff.mp also
  obtain ⟨j, there⟩ := List.mem_iff_getElem?.mp among
  -- A local name is what remains of each of its names without a module.
  have alone {k : Nat} {below? : Option String} {name : String} {fields : List Param} {span : Span}
      (at_k : (placed pre.module? ds)[k]? = some (below?, ⟨.struct name fields, span⟩))
      (either : text = name ∨ text = fullName below? name) : unqualified text = name := by
    obtain ⟨mem, -⟩ := exists_name_of_mem_placed (List.mem_of_getElem? at_k)
    have dotless := h.dotless _ mem name rfl
    rcases either with rfl | rfl
    · exact unqualified_of_dotless dotless
    · exact unqualified_fullName below? dotless
  have bound {k : Nat} {below? : Option String} {name : String} {fields : List Param} {span : Span}
      (at_k : (placed pre.module? ds)[k]? = some (below?, ⟨.struct name fields, span⟩)) :
      (pre.extend ds).2.table.localId? name = some (pre.table.symbols.length + k) := by
    rcases placed_getElem? at_k with ⟨-, -, anywhere⟩ | anywhere
    · exact h.localId? (anywhere none) rfl (.inl rfl)
    · exact h.localId? (anywhere none) rfl (.inl rfl)
  obtain rfl : name = other := (alone here either).symm.trans (alone there either')
  have same : pre.table.symbols.length + i = pre.table.symbols.length + j :=
    Option.some.inj ((bound here).symm.trans (bound there))
  obtain rfl : i = j := by omega
  cases here.symm.trans there
  rfl

theorem findType?_eq (h : pre.Follows ds) {i : Nat} {module? : Option String} {name : String}
    {fields : List Param} {span : Span}
    (here : (placed pre.module? ds)[i]? = some (module?, ⟨.struct name fields, span⟩))
    {text : String} (either : text = name ∨ text = fullName module? name)
    (other : Ty.ofName? text = none) :
    (ds.foldl collect pre).findType? text = some (.named (fullName module? name)) := by
  obtain ⟨new, whole, entries⟩ := structures_foldl_collect ds pre
  have declared : (name, fullName module? name) ∈ structureNames pre.module? ds :=
    mem_structureNames_iff.mpr ⟨module?, fields, span, List.mem_of_getElem? here, rfl⟩
  have known : (text, fullName module? name) ∈ new := (entries _ _).mpr ⟨name, declared, either⟩
  have some_found : (new.find? (·.1 = text)).isSome :=
    List.find?_isSome.mpr ⟨_, known, by simp⟩
  obtain ⟨⟨key, full⟩, found⟩ := Option.isSome_iff_exists.mp some_found
  have same : key = text := by simpa using List.find?_some found
  obtain ⟨name', also, either'⟩ := (entries key full).mp (List.mem_of_find?_eq_some found)
  have full_eq := h.structure_unique here either also (same ▸ either')
  simp [findType?, other, whole, List.find?_append, found, full_eq]

end Follows

/-- The types of annotations agree with the structures exactly if the module left over changes the
full name of no structure whose local name is an annotation. -/
theorem Follows.agrees_iff {pre : Prelude} {ds : List Declaration} (h : pre.Follows ds) :
    (pre.extend ds).2.table.Agrees pre.table.symbols.length (placed none ds) ↔
      pre.module? = none ∨ ∀ d ∈ leading ds, ∀ name fields, d.declared = .struct name fields →
        Ty.ofName? name = none → ∀ user ∈ ds, name ∉ user.declared.annotations := by
  have gains := h.gains
  have rooted := extend_rooted h.rooted ds
  constructor
  · intro agrees
    cases left : pre.module? with
    | none => exact .inl rfl
    | some path =>
      refine .inr fun d lead name fields struct other user mem annotation => ?_
      obtain ⟨declared, span⟩ := d
      obtain rfl : declared = .struct name fields := struct
      obtain ⟨j, anywhere⟩ := exists_getElem?_of_leading lead
      have leads := h.localId? (anywhere none) rfl (.inl rfl)
      rw [← rooted.lookupId?_eq] at leads
      have isStruct := gains.isStruct_iff.mpr ⟨none, _, anywhere none, rfl⟩
      have named : user.declared.name?.isSome := by
        cases declared : user.declared with
        | inModule => rw [declared] at annotation; cases annotation
        | function | struct | var => rfl
      obtain ⟨below?, among⟩ : ∃ below?, (below?, user) ∈ placed none ds :=
        exists_mem_placed mem named
      obtain ⟨i, here⟩ := List.mem_iff_getElem?.mp among
      obtain ⟨there, isSome⟩ := gains.symbol here
      obtain ⟨s, stands⟩ := Option.isSome_iff_exists.mp isSome
      have reading : (name, (ds.foldl collect pre).findType? name) ∈ readings user.declared s := by
        rw [readings_of_symbol? stands]
        exact List.mem_map_of_mem annotation
      have alone := agrees i below? user s here (there.trans stands) _ _ reading other j _ leads
        isStruct
      have collected := h.findType?_eq (anywhere pre.module?) (.inl rfl) other
      -- The collecting pass has put the module that was left over in front of the name.
      rw [alone, left] at collected
      have lengths := congrArg (fun ty? => ty?.map fun ty => ty.display.length) collected
      simp [Ty.display, fullName] at lengths
  · intro harmless i module? d s here there text ty? reading other j full leads struct
    rw [readings_of_symbol? ((gains.symbol here).1.symm.trans there)] at reading
    obtain ⟨text, annotation, same⟩ := List.mem_map.mp reading
    cases same
    obtain ⟨below?, ⟨declared, span⟩, place, isStruct⟩ := gains.isStruct_iff.mp struct
    cases declared with
    | inModule | function | var => cases isStruct
    | struct name fields =>
      obtain rfl : fullName below? name = full := Option.some.inj isStruct
      have either : text = name ∨ text = fullName below? name := by
        rw [rooted.lookupId?_eq, gains.binds] at leads
        rcases leads with old | ⟨k, at_k, names⟩
        · have below := h.rooted.numbered _ _ old
          omega
        · obtain rfl : j = k := by omega
          obtain ⟨below', d', alone, place', named, either⟩ := names
          cases place.symm.trans place'
          cases named
          exact either
      -- Only a declaration before the first module is placed by the one left over.
      rcases placed_getElem? place with ⟨rfl, lead, anywhere⟩ | anywhere
      · obtain rfl : text = name := either.elim id id
        rcases harmless with none | unused
        · exact none ▸ h.findType?_eq (anywhere pre.module?) (.inl rfl) other
        · obtain ⟨mem, -⟩ := exists_name_of_mem_placed (List.mem_of_getElem? here)
          exact absurd annotation (unused _ lead text fields rfl other d mem)
      · exact h.findType?_eq (anywhere pre.module?) either other

/-- What the two passes take an annotation for agrees in a list that is taken in after others
exactly if the last of them ended below no module, or no annotation in the list is the local name of
a structure that stands before the first module of the list. -/
theorem agrees_extend_after_iff (lists : List (List Declaration)) {source : String}
    {ds : List Declaration} (read : readDeclarations source = .ok ds)
    (ok : ((after lists).extend ds).1 = []) :
    ((after lists).extend ds).2.table.Agrees (after lists).table.symbols.length (placed none ds) ↔
      lists.getLast?.bind (lastModule? none) = none ∨
        ∀ d ∈ leading ds, ∀ name fields, d.declared = .struct name fields →
          Ty.ofName? name = none → ∀ user ∈ ds, name ∉ user.declared.annotations := by
  have follows : (after lists).Follows ds :=
    ⟨after_rooted lists, ok, dotless_of_readDeclarations read⟩
  rw [← after_module?]
  exact follows.agrees_iff

/- The structure before the module is not used, and the one behind it is below that module. -/
theorem agrees_extend_after_iff_behind :
    ∃ first ds, readDeclarations "module m" = .ok first ∧
      readDeclarations "struct P(x: i32)\nmodule n\nstruct Q(y: i32)\nlet v: Q" = .ok ds ∧
      ((after [first]).extend ds).2.table.Agrees (after [first]).table.symbols.length
        (placed none ds) := by
  let first : List Declaration := [⟨.inModule "m", ⟨0, 8⟩⟩]
  let ds : List Declaration :=
    [⟨.struct "P" [⟨"x", some "i32", none, ⟨9, 15⟩⟩], ⟨0, 16⟩⟩, ⟨.inModule "n", ⟨17, 25⟩⟩,
      ⟨.struct "Q" [⟨"y", some "i32", none, ⟨35, 41⟩⟩], ⟨26, 42⟩⟩, ⟨.var "v" (some "Q"), ⟨43, 51⟩⟩]
  have read :
      readDeclarations "struct P(x: i32)\nmodule n\nstruct Q(y: i32)\nlet v: Q" = .ok ds := by
    with_unfolding_all rfl
  have unused : ∀ d ∈ leading ds, ∀ name fields, d.declared = .struct name fields →
      Ty.ofName? name = none → ∀ user ∈ ds, name ∉ user.declared.annotations := by
    intro d mem name fields struct
    obtain rfl := List.mem_singleton.mp mem
    cases struct
    decide
  have accepted : ((after [first]).extend ds).1 = [] := by decide +kernel
  exact ⟨first, ds, by with_unfolding_all rfl, read,
    (agrees_extend_after_iff [first] read accepted).mpr (.inr unused)⟩

/- The collecting pass takes the structure for one of the module that the list before ended in. -/
theorem not_agrees_extend_after :
    ∃ first ds, readDeclarations "module m" = .ok first ∧
      readDeclarations "struct P(x: i32)\nlet v: P" = .ok ds ∧
      ((after [first]).extend ds).1 = [] ∧
      ¬((after [first]).extend ds).2.table.Agrees (after [first]).table.symbols.length
        (placed none ds) := by
  let first : List Declaration := [⟨.inModule "m", ⟨0, 8⟩⟩]
  let ds : List Declaration :=
    [⟨.struct "P" [⟨"x", some "i32", none, ⟨9, 15⟩⟩], ⟨0, 16⟩⟩, ⟨.var "v" (some "P"), ⟨17, 25⟩⟩]
  refine ⟨first, ds, by with_unfolding_all rfl, by with_unfolding_all rfl, rfl, fun agrees => ?_⟩
  have reading : ("P", some (.named "m.P")) ∈
      readings (.var "v" (some "P")) (.var "v" (.known (.named "m.P")) ⟨17, 25⟩) := by
    decide
  have same := agrees 1 none _ _ rfl rfl _ _ reading rfl 0 "P" (by with_unfolding_all rfl)
    ⟨_, rfl, rfl⟩
  simp at same

end Prelude

end ExprCheck
