import ExprCheck.Proofs.Prelude.Extension
/-! Types that are shown and named again. A built-in type shows its name, and a structure its full
name. Main statement: in the table of a prelude, what a type of a symbol shows is the name of that
type again, unless the type is that of a structure which has the name of a built-in type; such a
name is that of the built-in type. -/
namespace ExprCheck

theorem Ty.named_or_ofName?_display (ty : Ty) :
    (∃ full, ty = .named full) ∨ Ty.ofName? ty.display = some ty := by
  cases ty with
  | int ty =>
    right
    cases ty <;> decide
  | float ty =>
    right
    cases ty <;> decide
  | named full => exact .inl ⟨full, rfl⟩
  | _ => exact .inr (by decide)

theorem Ty.display_of_ofName? {text : String} {ty : Ty} (found : Ty.ofName? text = some ty) :
    ty.display = text := by
  rcases Option.or_eq_some_iff.mp found with int | ⟨-, rest⟩
  · obtain ⟨ty, first, rfl⟩ := Option.map_eq_some_iff.mp int
    have same : ty.name = text := by simpa using List.find?_some first
    exact same
  · rcases Option.or_eq_some_iff.mp rest with float | ⟨-, plain⟩
    · obtain ⟨ty, first, rfl⟩ := Option.map_eq_some_iff.mp float
      have same : ty.name = text := by simpa using List.find?_some first
      exact same
    · simpa using List.find?_some plain

theorem Ty.ofName?_dotted (path name : String) : Ty.ofName? (path ++ "." ++ name) = none := by
  cases found : Ty.ofName? (path ++ "." ++ name) with
  | none => rfl
  | some ty =>
    have shown := Ty.display_of_ofName? found
    have dot : '.' ∈ ty.display.toList := by simp [shown]
    cases ty with
    | named full => exact absurd found (Ty.ofName?_ne_named _ full)
    | int ty => cases ty <;> exact absurd dot (by decide)
    | float ty => cases ty <;> exact absurd dot (by decide)
    | _ => exact absurd dot (by decide)

/-- The type is what the name has as a value, or what is expected of a parameter or a field. -/
def Symbol.Carries (s : Symbol) (ty : Ty) : Prop :=
  s.valueType = .known ty ∨ ∃ p ∈ s.params, p.2.expected = .known ty

theorem Symbol.Carries.mem_types_or {s : Symbol} {ty : Ty} (h : s.Carries ty) :
    ty ∈ s.types ∨ ∃ full, s.structure? = some full ∧ ty = .named full := by
  rcases h with value | ⟨p, mem, expected⟩
  · cases s with
    | function name ps returns span =>
      have same : returns = .known ty := value
      exact .inl (List.mem_append_right _ (by simp [result?, same, ResultType.known?]))
    | var name held span =>
      have same : held = .known ty := value
      exact .inl (List.mem_append_right _ (by simp [result?, same, ResultType.known?]))
    | struct name full fields span =>
      cases value
      exact .inr ⟨full, rfl, rfl⟩
  · have known : p.2.expected.known? = some ty := by rw [expected]; rfl
    exact .inl (List.mem_append_left _ (List.mem_filterMap.mpr ⟨p, mem, known⟩))

namespace Tabled

variable {ds : List Declaration} {t : ScopeTable}

/-- Every structure that a symbol refers to is declared. -/
theorem declared_of_carries (h : Tabled ds t) {s : Symbol} (mem : s ∈ t.symbols) {full : String}
    (carries : s.Carries (.named full)) : ∃ name, (name, full) ∈ structureNames none ds := by
  obtain ⟨⟨module?, d⟩, among, stands⟩ := h.mem_symbols_iff.mp mem
  rcases carries.mem_types_or with typed | ⟨other, struct, same⟩
  · obtain ⟨text, -, found⟩ := Declaration.annotation_of_mem_types stands typed
    cases h.typeOf_eq_some_iff.mp found with
    | builtIn name => exact absurd name (Ty.ofName?_ne_named text full)
    | struct _ declared _ => exact ⟨_, declared⟩
  · cases same
    obtain ⟨introduces, -⟩ := Declaration.introduces_of_symbol? stands
    obtain ⟨declared, span⟩ := d
    have own := introduces.full.trans struct
    cases declared with
    | inModule | function | var => cases own
    | struct name fields =>
      exact ⟨name, mem_structureNames_iff.mpr ⟨module?, fields, span, among,
        (Option.some.inj own).symm⟩⟩

end Tabled

/-- The type is that of a structure which is declared outside all modules and has the name of a
built-in type. -/
def Hidden (ds : List Declaration) (ty builtIn : Ty) : Prop :=
  ∃ name fields span, (none, ⟨.struct name fields, span⟩) ∈ placed none ds ∧ ty = .named name ∧
    Ty.ofName? name = some builtIn

/-- What a type of a symbol shows is the name of that type again, but a structure that has the name
of a built-in type is hidden behind it. -/
theorem typeNamed_display {source : String} {table : ScopeTable}
    (read : readPrelude source = .ok table) :
    ∃ ds, readDeclarations source = .ok ds ∧ ∀ s ∈ table.symbols, ∀ ty, s.Carries ty →
      ((∀ builtIn, ¬Hidden ds ty builtIn) → typeNamed table.lookup? ty.display = .ok ty) ∧
        ∀ builtIn, Hidden ds ty builtIn → typeNamed table.lookup? ty.display = .ok builtIn := by
  obtain ⟨ds, declared, tabled⟩ := tabled_of_readPrelude read
  refine ⟨ds, declared, ?_⟩
  intro s mem ty carries
  constructor
  · intro seen
    apply tabled.typeNamed_iff_denotes.mpr
    rcases ty.named_or_ofName?_display with ⟨full, rfl⟩ | builtIn
    · obtain ⟨name, struct⟩ := tabled.declared_of_carries mem carries
      have other : Ty.ofName? full = none := by
        obtain ⟨module?, fields, span, among, rfl⟩ := mem_structureNames_iff.mp struct
        cases module? with
        | some path => exact Ty.ofName?_dotted path name
        | none =>
          cases found : Ty.ofName? name with
          | none => exact found
          | some builtIn => exact absurd ⟨name, fields, span, among, rfl, found⟩ (seen builtIn)
      exact .struct other struct (.inr rfl)
    · exact .builtIn builtIn
  · rintro builtIn ⟨name, fields, span, -, rfl, found⟩
    exact tabled.typeNamed_iff_denotes.mpr (.builtIn found)

/- Below a module, a structure may have the name of a built-in type. -/
theorem typeNamed_display_below :
    ∃ table s, readPrelude "module m\nstruct i32(x: str)" = .ok table ∧ s ∈ table.symbols ∧
      s.Carries (.named "m.i32") ∧ typeNamed table.lookup? "m.i32" = .ok (.named "m.i32") := by
  let d : Declaration := ⟨.struct "i32" [⟨"x", some "str", none, ⟨20, 26⟩⟩], ⟨9, 27⟩⟩
  have declared : readDeclarations "module m\nstruct i32(x: str)" =
      .ok [⟨.inModule "m", ⟨0, 8⟩⟩, d] := by with_unfolding_all rfl
  obtain ⟨table, accepted⟩ : ∃ table,
      ScopeTable.ofDeclarations [⟨.inModule "m", ⟨0, 8⟩⟩, d] = .ok table := ⟨_, rfl⟩
  have tabled : Tabled _ table := ⟨accepted, dotless_of_readDeclarations declared⟩
  obtain ⟨s, mem, carries⟩ : ∃ s ∈ table.symbols, s.Carries (.named "m.i32") :=
    ⟨_, tabled.mem_symbols_iff.mpr ⟨(some "m", d), List.mem_cons_self, rfl⟩, .inl rfl⟩
  have read := readPrelude_eq_ok_iff.mpr ⟨_, declared, accepted⟩
  obtain ⟨ds, same, shows⟩ := typeNamed_display read
  cases declared.symm.trans same
  have seen : ∀ builtIn, ¬Hidden [⟨.inModule "m", ⟨0, 8⟩⟩, d] (.named "m.i32") builtIn := by
    rintro builtIn ⟨name, fields, span, -, same, found⟩
    cases same
    cases found
  exact ⟨table, s, read, mem, carries, (shows s mem _ carries).1 seen⟩

/- Outside all modules, that name is the one of the built-in type alone. -/
theorem not_typeNamed_display_hidden :
    ∃ table s, readPrelude "struct i32(x: str)" = .ok table ∧ s ∈ table.symbols ∧
      s.Carries (.named "i32") ∧
      typeNamed table.lookup? (Ty.named "i32").display ≠ .ok (.named "i32") := by
  let d : Declaration := ⟨.struct "i32" [⟨"x", some "str", none, ⟨11, 17⟩⟩], ⟨0, 18⟩⟩
  have declared : readDeclarations "struct i32(x: str)" = .ok [d] := by with_unfolding_all rfl
  obtain ⟨table, accepted⟩ : ∃ table, ScopeTable.ofDeclarations [d] = .ok table := ⟨_, rfl⟩
  have tabled : Tabled [d] table := ⟨accepted, dotless_of_readDeclarations declared⟩
  have builtIn : typeNamed table.lookup? "i32" = .ok (.int .i32) := rfl
  refine ⟨table, _, readPrelude_eq_ok_iff.mpr ⟨_, declared, accepted⟩,
    tabled.mem_symbols_iff.mpr ⟨(none, d), List.mem_cons_self, rfl⟩, .inl rfl, ?_⟩
  intro found
  cases builtIn.symm.trans found

end ExprCheck
