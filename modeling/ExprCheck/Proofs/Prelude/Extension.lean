import Mathlib.Data.List.Nodup
import ExprCheck.Proofs.Prelude.Lookup
/-! Longer preludes. Declarations that are put behind others give earlier annotations no other type
and earlier names no other symbol. Main statement: a text is the name of a type in the table of a
prelude exactly if the prelude can go on with a variable of that type, and then the variable has the
type that the table finds. -/
namespace ExprCheck

def Lookup.Within (lookup lookup' : Lookup) : Prop :=
  ∀ name s, lookup name = some s → lookup' name = some s

theorem Denotes.append {ds : List Declaration} {text : String} {ty : Ty} (h : Denotes ds text ty)
    (more : List Declaration) : Denotes (ds ++ more) text ty := by
  cases h with
  | builtIn name => exact .builtIn name
  | struct other declared either =>
    refine .struct other ?_ either
    rw [structureNames_append]
    exact List.mem_append_left _ declared

/-- A symbol depends on the types of the annotations of its declaration alone. -/
theorem Declaration.symbol?_congr {find find' : String → Option Ty} {d : Declaration}
    (same : ∀ text ∈ d.declared.annotations, find text = find' text) (module? : Option String) :
    d.symbol? find module? = d.symbol? find' module? := by
  have listed : paramList find d.declared.params = paramList find' d.declared.params := by
    refine List.map_congr_left fun p mem => ?_
    have typed : p.ty?.bind find = p.ty?.bind find' := by
      cases given : p.ty? with
      | none => rfl
      | some text =>
        exact same text (List.mem_append_left _ (List.mem_filterMap.mpr ⟨p, mem, given⟩))
    rw [Param.spec, Param.spec, typed]
  have result : annotated find d.declared.annotation? = annotated find' d.declared.annotation? := by
    unfold annotated
    cases given : d.declared.annotation? with
    | none => rfl
    | some text =>
      have own : text ∈ d.declared.annotations :=
        List.mem_append_right _ (Option.mem_toList.mpr given)
      rw [Option.bind_some, Option.bind_some, same text own]
  obtain ⟨declared, span⟩ := d
  cases declared with
  | inModule => rfl
  | function name ps returns? =>
    simp only [Declared.params, Declared.annotation?] at listed result
    simp only [symbol?, listed, result]
  | struct name fields =>
    simp only [Declared.params] at listed
    simp only [symbol?, listed]
  | var name ty? =>
    simp only [Declared.annotation?] at result
    simp only [symbol?, result]

namespace Tabled

variable {ds more : List Declaration} {t t' : ScopeTable}

theorem within (h : Tabled ds t) (h' : Tabled (ds ++ more) t') :
    Lookup.Within t.lookup? t'.lookup? := by
  intro name s found
  obtain ⟨x, mem, declares, symbol⟩ := h.lookup?_eq_some_iff.mp found
  obtain ⟨among, -⟩ := exists_name_of_mem_placed mem
  refine h'.lookup?_eq_some_iff.mpr ⟨x, ?_, declares, ?_⟩
  · rw [placed_append]
    exact List.mem_append_left _ mem
  · -- the longer list finds further types, but every annotation of the shorter one had its type
    rw [← symbol, eq_comm]
    refine Declaration.symbol?_congr (fun text written => ?_) x.1
    obtain ⟨ty, typed⟩ := Option.isSome_iff_exists.mp (h.typeOf_isSome among written)
    have denotes := h.typeOf_eq_some_iff.mp typed
    rw [typed, h'.typeOf_eq_some_iff.mpr (denotes.append more)]

end Tabled

theorem typeNamed_eq_ok_iff {lookup : Lookup} {text : String} {ty : Ty} :
    typeNamed lookup text = .ok ty ↔ Ty.ofName? text = some ty ∨ Ty.ofName? text = none ∧
      ∃ name full fields span, lookup text = some (.struct name full fields span) ∧
        ty = .named full := by
  unfold typeNamed
  cases Ty.ofName? text with
  | some found => simp
  | none =>
    cases lookup text with
    | none => simp
    | some symbol => cases symbol <;> simp [eq_comm]

theorem Tabled.finds_struct_iff {ds : List Declaration} {t : ScopeTable} (h : Tabled ds t)
    {text full : String} :
    (∃ name fields span, t.lookup? text = some (.struct name full fields span)) ↔
      ∃ name, (name, full) ∈ structureNames none ds ∧ (text = name ∨ text = full) := by
  constructor
  · rintro ⟨name, fields, span, found⟩
    obtain ⟨⟨module?, declared, place⟩, mem, ⟨alone, named, either⟩, symbol⟩ :=
      h.lookup?_eq_some_iff.mp found
    cases declared with
    | struct =>
      cases named
      cases symbol
      exact ⟨_, mem_structureNames_iff.mpr ⟨module?, _, _, mem, rfl⟩, either⟩
    | inModule | function | var => cases symbol
  · rintro ⟨name, declared, either⟩
    obtain ⟨module?, fields, span, mem, rfl⟩ := mem_structureNames_iff.mp declared
    exact ⟨name, paramList (typeOf ds) fields, span,
      h.lookup?_eq_some_iff.mpr ⟨_, mem, ⟨name, rfl, either⟩, rfl⟩⟩

/-- A text names a type exactly if an annotation with that text denotes it. -/
theorem Tabled.typeNamed_iff_denotes {ds : List Declaration} {t : ScopeTable} (h : Tabled ds t)
    {text : String} {ty : Ty} : typeNamed t.lookup? text = .ok ty ↔ Denotes ds text ty := by
  rw [typeNamed_eq_ok_iff]
  constructor
  · rintro (name | ⟨other, name, full, fields, span, found, rfl⟩)
    · exact .builtIn name
    · obtain ⟨alone, declared, either⟩ := h.finds_struct_iff.mp ⟨name, fields, span, found⟩
      exact .struct other declared either
  · rintro (name | ⟨other, declared, either⟩)
    · exact .inl name
    · obtain ⟨name, fields, span, found⟩ := h.finds_struct_iff.mpr ⟨_, declared, either⟩
      exact .inr ⟨other, name, _, fields, span, found, rfl⟩

section

variable {ds : List Declaration} {name text : String} {span : Span}

theorem denotes_append_var_iff {ty : Ty} {ty? : Option String} {read : String} :
    Denotes (ds ++ [⟨.var name ty?, span⟩]) read ty ↔ Denotes ds read ty := by
  refine ⟨fun denotes => ?_, fun denotes => denotes.append _⟩
  cases denotes with
  | builtIn name => exact .builtIn name
  | struct other declared either =>
    rw [structureNames_append] at declared
    exact .struct other (by simpa [structureNames] using declared) either

theorem wellFormed_append_var_iff (ok : WellFormed ds) (new : name ∉ localNames ds) :
    WellFormed (ds ++ [⟨.var name (some text), span⟩]) ↔ ∃ ty, Denotes ds text ty := by
  let d : Declaration := ⟨.var name (some text), span⟩
  obtain ⟨names, keeps⟩ := wellFormed_iff_keeps.mp ok
  have denotes : Denotes (ds ++ [d]) = Denotes ds := by
    funext text ty
    exact propext denotes_append_var_iff
  have more : localNames (ds ++ [d]) = localNames ds ++ [name] := List.flatMap_append
  rw [wellFormed_iff_keeps, denotes, more, List.forall_mem_append, List.forall_mem_singleton]
  constructor
  · rintro ⟨-, -, own⟩
    exact own.types text List.mem_cons_self
  · intro typed
    refine ⟨?_, keeps, .nil, List.forall_mem_singleton.mpr typed, nofun, nofun⟩
    refine List.nodup_append.mpr ⟨names, List.nodup_singleton _, fun other mem last own => ?_⟩
    rintro rfl
    exact new (List.mem_singleton.mp own ▸ mem)

end

/-- A text names a type in the table of a prelude exactly if a variable with a new name can be
declared with it behind the prelude, and then the variable has that type. -/
theorem typeNamed_iff_declares {source : String} {ds : List Declaration} {t : ScopeTable}
    (read : readDeclarations source = .ok ds) (accepted : ScopeTable.ofDeclarations ds = .ok t)
    (text name : String) (dotless : '.' ∉ name.toList) (new : name ∉ localNames ds) (span : Span) :
    let longer := ds ++ [⟨.var name (some text), span⟩]
    ((∃ ty, typeNamed t.lookup? text = .ok ty) ↔
        ∃ t', ScopeTable.ofDeclarations longer = .ok t') ∧
      ∀ ty t', typeNamed t.lookup? text = .ok ty → ScopeTable.ofDeclarations longer = .ok t' →
        t'.lookup? name = some (.var name (.known ty) span) := by
  intro longer
  have tabled : Tabled ds t := ⟨accepted, dotless_of_readDeclarations read⟩
  have dotlessAll : ∀ d ∈ longer, ∀ name ∈ d.declared.name?, '.' ∉ name.toList :=
    List.forall_mem_append.mpr ⟨tabled.dotless, List.forall_mem_singleton.mpr
      fun _ named => Option.some.inj named ▸ dotless⟩
  constructor
  · rw [ofDeclarations_ok_iff dotlessAll, wellFormed_append_var_iff tabled.wellFormed new]
    simp only [tabled.typeNamed_iff_denotes]
  · intro ty t' typed accepted'
    have tabled' : Tabled longer t' := ⟨accepted', dotlessAll⟩
    have denotes := (tabled.typeNamed_iff_denotes.mp typed).append [⟨.var name (some text), span⟩]
    have last : (lastModule? none ds, ⟨.var name (some text), span⟩) ∈ placed none longer := by
      rw [placed_append]
      exact List.mem_append_right _ List.mem_cons_self
    refine tabled'.lookup?_eq_some_iff.mpr ⟨_, last, ⟨name, rfl, .inl rfl⟩, ?_⟩
    have found : typeOf longer text = some ty := tabled'.typeOf_eq_some_iff.mpr denotes
    simp [Declaration.symbol?, annotated, found]

/- The structure is named with its module in front of it. -/
theorem typeNamed_iff_declares_below :
    ∃ ds t, readDeclarations "module m\nstruct P(x = 1)" = .ok ds ∧
      ScopeTable.ofDeclarations ds = .ok t ∧ typeNamed t.lookup? "m.P" = .ok (.named "m.P") ∧
      ∃ t', ScopeTable.ofDeclarations (ds ++ [⟨.var "v" (some "m.P"), ⟨25, 35⟩⟩]) = .ok t' ∧
        t'.lookup? "v" = some (.var "v" (.known (.named "m.P")) ⟨25, 35⟩) := by
  let ds : List Declaration :=
    [⟨.inModule "m", ⟨0, 8⟩⟩, ⟨.struct "P" [⟨"x", none, some (.number "1"), ⟨18, 23⟩⟩], ⟨9, 24⟩⟩]
  have read : readDeclarations "module m\nstruct P(x = 1)" = .ok ds := by
    with_unfolding_all rfl
  obtain ⟨t, accepted⟩ : ∃ t, ScopeTable.ofDeclarations ds = .ok t := ⟨_, rfl⟩
  have tabled : Tabled ds t := ⟨accepted, dotless_of_readDeclarations read⟩
  have declared : ("P", "m.P") ∈ structureNames none ds := List.mem_cons_self
  have typed : typeNamed t.lookup? "m.P" = .ok (.named "m.P") :=
    tabled.typeNamed_iff_denotes.mpr (.struct (by decide) declared (.inr rfl))
  obtain ⟨declares, has⟩ :=
    typeNamed_iff_declares read accepted "m.P" "v" (by decide) (by decide) ⟨25, 35⟩
  obtain ⟨t', accepted'⟩ := declares.mp ⟨_, typed⟩
  exact ⟨ds, t, read, accepted, typed, t', accepted', has _ t' typed accepted'⟩

end ExprCheck
