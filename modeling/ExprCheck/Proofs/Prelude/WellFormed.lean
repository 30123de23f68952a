import ExprCheck.Proofs.Declaration.Spelling
import ExprCheck.Proofs.Lexeme.Feed
import ExprCheck.Proofs.Prelude.Types
import ExprCheck.Proofs.Scope
/-! Well-formed preludes. What a prelude must satisfy is said of the list of its declarations alone.
Main statement: the list that is read from a source has a table exactly if it is well-formed. The
taking in of a declaration reports a fault exactly if the declaration breaks one of the rules, and
no fault hides another. -/
namespace ExprCheck

namespace Declared

def params : Declared → List Param
  | function _ ps _ => ps
  | struct _ fields => fields
  | inModule _ | var .. => []

def annotation? : Declared → Option String
  | function _ _ returns? => returns?
  | var _ ty? => ty?
  | inModule _ | struct .. => none

def annotations (d : Declared) : List String :=
  d.params.filterMap Param.ty? ++ d.annotation?.toList

end Declared

/-- The local names that are declared, whatever their modules. -/
def localNames (ds : List Declaration) : List String :=
  ds.flatMap fun d => d.declared.name?.toList

/-- The rules that a prelude keeps: no local name and, within a declaration, no parameter name is
given twice; an annotation denotes a type and a default is a value of it; and the parameters of a
function that have a default come last. -/
structure WellFormed (ds : List Declaration) : Prop where
  names : (localNames ds).Nodup
  params : ∀ d ∈ ds, (d.declared.params.map Param.name).Nodup
  types : ∀ d ∈ ds, ∀ text ∈ d.declared.annotations, ∃ ty, Denotes ds text ty
  defaults : ∀ d ∈ ds, ∀ p ∈ d.declared.params, ∀ text ∈ p.ty?, ∀ value ∈ p.default?,
    Denotes ds text value.ty
  order : ∀ d ∈ ds, ∀ name ps returns?, d.declared = .function name ps returns? →
    ps.Pairwise fun p q => p.default?.isSome → q.default?.isSome

/-- The rules for one declaration, with the types that annotations denote. -/
structure Keeps (denotes : String → Ty → Prop) (d : Declared) : Prop where
  params : (d.params.map Param.name).Nodup
  types : ∀ text ∈ d.annotations, ∃ ty, denotes text ty
  defaults : ∀ p ∈ d.params, ∀ text ∈ p.ty?, ∀ value ∈ p.default?, denotes text value.ty
  order : ∀ name ps returns?, d = .function name ps returns? →
    ps.Pairwise fun p q => p.default?.isSome → q.default?.isSome

theorem wellFormed_iff_keeps {ds : List Declaration} :
    WellFormed ds ↔ (localNames ds).Nodup ∧ ∀ d ∈ ds, Keeps (Denotes ds) d.declared := by
  constructor
  · rintro ⟨names, params, types, defaults, order⟩
    exact ⟨names, fun d mem => ⟨params d mem, types d mem, defaults d mem, order d mem⟩⟩
  · rintro ⟨names, keeps⟩
    exact ⟨names, fun d mem => (keeps d mem).params, fun d mem => (keeps d mem).types,
      fun d mem => (keeps d mem).defaults, fun d mem => (keeps d mem).order⟩

/-- What is kept of a parameter, with the types that are found for annotations. -/
def Param.spec (find : String → Option Ty) (p : Param) : ParamSpec :=
  ⟨p.ty?.bind find, p.default?.map (Expr.ofLiteral false), p.span⟩

def paramList (find : String → Option Ty) (ps : List Param) : ParamList :=
  ps.map fun p => (p.name, p.spec find)

/-- The result type of an annotation, which is unknown if there is none. -/
def annotated (find : String → Option Ty) (ty? : Option String) : ResultType :=
  (ty?.bind find).elim .undetermined .known

/-- The symbol that a declaration below a module stands for; a module is no symbol. -/
def Declaration.symbol? (find : String → Option Ty) (module? : Option String) (d : Declaration) :
    Option Symbol :=
  match d.declared with
  | .inModule _ => none
  | .function name ps returns? =>
      some (.function name (paramList find ps) (annotated find returns?) d.span)
  | .struct name fields =>
      some (.struct name (fullName module? name) (paramList find fields) d.span)
  | .var name ty? => some (.var name (annotated find ty?) d.span)

namespace Prelude

/-! ## Faults -/

/-- Faults have been reported, none exactly if `ok` holds, and nothing else has changed. -/
def Reports (ok : Prop) (pre pre' : Prelude) : Prop :=
  ∃ new, pre' = { pre with faults := pre.faults ++ new } ∧ (new = [] ↔ ok)

namespace Reports

variable {ok ok' : Prop} {pre pre' pre'' : Prelude}

theorem nothing (holds : ok) : Reports ok pre pre :=
  ⟨[], by rw [List.append_nil], iff_of_true rfl holds⟩

theorem fault {fault : Fault} {span : Span} (fails : ¬ok) :
    Reports ok pre (pre.report fault span) :=
  ⟨[⟨fault, span⟩], rfl, iff_of_false (by simp) fails⟩

theorem trans (first : Reports ok pre pre') (second : Reports ok' pre' pre'') :
    Reports (ok ∧ ok') pre pre'' := by
  obtain ⟨new, rfl, empty⟩ := first
  obtain ⟨new', rfl, empty'⟩ := second
  refine ⟨new ++ new', by simp, ?_⟩
  rw [List.append_eq_nil_iff, empty, empty']

theorem of_iff (h : Reports ok pre pre') (same : ok ↔ ok') : Reports ok' pre pre' := by
  rwa [← propext same]

theorem findType? (h : Reports ok pre pre') : pre'.findType? = pre.findType? := by
  obtain ⟨new, rfl, -⟩ := h
  rfl

end Reports

theorem reports_annotation (pre : Prelude) (ty? : Option String) (span : Span) :
    Reports (∀ text ∈ ty?, (pre.findType? text).isSome) pre (pre.annotation ty? span).2 := by
  unfold annotation
  cases ty? with
  | none => exact .nothing (by simp)
  | some text =>
    dsimp only
    split
    · rename_i ty found
      exact .nothing (by simp [found])
    · rename_i none
      exact .fault (by simp [none])

theorem annotation_fst (pre : Prelude) (ty? : Option String) (span : Span) :
    (pre.annotation ty? span).1 = ty?.bind pre.findType? := by
  unfold annotation
  cases ty? with
  | none => rfl
  | some text =>
    dsimp only [Option.bind_some]
    split <;> simp [*]

theorem reports_checkDefault (pre : Prelude) (ty? : Option Ty) (value? : Option Literal)
    (span : Span) :
    Reports (∀ declared ∈ ty?, ∀ value ∈ value?, value.ty = declared) pre
      (pre.checkDefault ty? (value?.map (Expr.ofLiteral false)) span) := by
  unfold checkDefault
  cases ty? with
  | none => exact .nothing (by simp)
  | some declared =>
    cases value? with
    | none => exact .nothing (by simp)
    | some value =>
      have found : (some (Expr.ofLiteral false value)).bind (·.resultType.known?) = some value.ty :=
        rfl
      rw [Option.map_some, found]
      dsimp only
      split
      · rename_i same
        exact .nothing (by simp [same])
      · rename_i differs
        exact .fault (by simp [differs])

/-- The rules for one parameter, beside what its list asks of it. -/
def Types (find : String → Option Ty) (p : Param) : Prop :=
  ∀ text ∈ p.ty?, (find text).isSome ∧ ∀ value ∈ p.default?, find text = some value.ty

/-- The rules for the parameters that are left, behind those done. -/
structure Admits (find : String → Option Ty) (ordered seen : Bool) (done : List String)
    (ps : List Param) : Prop where
  types : ∀ p ∈ ps, Types find p
  order : ordered = true → (seen = true → ∀ p ∈ ps, p.default?.isSome) ∧
    ps.Pairwise fun p q => p.default?.isSome → q.default?.isSome
  distinct : (ps.map Param.name).Nodup
  fresh : ∀ p ∈ ps, p.name ∉ done

theorem admits_cons_iff {find : String → Option Ty} {ordered seen : Bool} {done : List String}
    {p : Param} {rest : List Param} :
    Admits find ordered seen done (p :: rest) ↔
      (Types find p ∧ (ordered = true → seen = true → p.default?.isSome)) ∧ p.name ∉ done ∧
        Admits find ordered (seen || p.default?.isSome) (done ++ [p.name]) rest := by
  constructor
  · rintro ⟨types, order, distinct, fresh⟩
    obtain ⟨here, below⟩ := List.forall_mem_cons.mp types
    obtain ⟨free, others⟩ := List.forall_mem_cons.mp fresh
    rw [List.map_cons, List.nodup_cons] at distinct
    refine ⟨⟨here, fun ordered seen => (order ordered).1 seen p List.mem_cons_self⟩, free,
      below, fun ordered => ?_, distinct.2, ?_⟩
    · obtain ⟨all, pairwise⟩ := order ordered
      obtain ⟨behind, pairwise⟩ := List.pairwise_cons.mp pairwise
      refine ⟨fun seen q mem => ?_, pairwise⟩
      rcases Bool.or_eq_true_iff.mp seen with before | now
      · exact all before q (List.mem_cons_of_mem _ mem)
      · exact behind q mem now
    · intro q mem old
      rcases List.mem_append.mp old with before | now
      · exact others q mem before
      · have same : q.name = p.name := List.mem_singleton.mp now
        exact distinct.1 (same ▸ List.mem_map_of_mem mem)
  · rintro ⟨⟨here, due⟩, free, below, order, distinct, fresh⟩
    refine ⟨List.forall_mem_cons.mpr ⟨here, below⟩, fun ordered => ?_, ?_, ?_⟩
    · obtain ⟨all, pairwise⟩ := order ordered
      refine ⟨fun seen => List.forall_mem_cons.mpr ⟨due ordered seen, all (by simp [seen])⟩, ?_⟩
      exact List.pairwise_cons.mpr ⟨fun q mem now => all (by simp [now]) q mem, pairwise⟩
    · refine List.nodup_cons.mpr ⟨fun again => ?_, distinct⟩
      obtain ⟨q, mem, same⟩ := List.mem_map.mp again
      exact fresh q mem (by simp [same])
    · refine List.forall_mem_cons.mpr ⟨free, fun q mem old => ?_⟩
      exact fresh q mem (List.mem_append_left _ old)

theorem reports_typed (pre : Prelude) (p : Param) :
    Reports (Types pre.findType? p) pre
      ((pre.annotation p.ty? p.span).2.checkDefault (pre.annotation p.ty? p.span).1
        (p.default?.map (Expr.ofLiteral false)) p.span) := by
  have found := reports_annotation pre p.ty? p.span
  have agreed := reports_checkDefault (pre.annotation p.ty? p.span).2
    (pre.annotation p.ty? p.span).1 p.default? p.span
  refine (found.trans agreed).of_iff ?_
  rw [annotation_fst]
  constructor
  · rintro ⟨known, agrees⟩ text mem
    refine ⟨known text mem, fun value given => ?_⟩
    obtain ⟨ty, there⟩ := Option.isSome_iff_exists.mp (known text mem)
    have same := agrees ty (Option.bind_eq_some_iff.mpr ⟨text, mem, there⟩) value given
    rw [there, same]
  · intro holds
    refine ⟨fun text mem => (holds text mem).1, fun declared bound value given => ?_⟩
    obtain ⟨text, mem, there⟩ := Option.bind_eq_some_iff.mp bound
    have same := (holds text mem).2 value given
    rw [there] at same
    exact (Option.some.inj same).symm

theorem reports_due (pre : Prelude) (ordered seen : Bool) (p : Param) :
    Reports (ordered = true → seen = true → p.default?.isSome) pre
      (if ordered && seen && (p.default?.map (Expr.ofLiteral false)).isNone then
        pre.report (.defaultBeforeRequired p.name) p.span
      else pre) := by
  split
  · rename_i late
    exact .fault (by simpa [and_assoc] using late)
  · rename_i fine
    refine .nothing fun ordered seen => ?_
    simpa [ordered, seen, Option.isSome_iff_ne_none] using fine

theorem params_cons (ordered seen : Bool) (done : ParamList) (pre : Prelude) (p : Param)
    (rest : List Param) :
    ∃ checked,
      Reports (Types pre.findType? p ∧ (ordered = true → seen = true → p.default?.isSome)) pre
        checked ∧
      pre.params ordered seen done (p :: rest) =
        params ordered (seen || p.default?.isSome)
          (checked.addParam done p (p.spec pre.findType?)).1
          (checked.addParam done p (p.spec pre.findType?)).2 rest := by
  have typed := pre.reports_typed p
  have due := typed.trans (reports_due _ ordered seen p)
  refine ⟨_, due, ?_⟩
  have given : (p.default?.map (Expr.ofLiteral false)).isSome = p.default?.isSome := by simp
  rw [← given, Param.spec, ← annotation_fst pre p.ty? p.span]
  rfl

theorem reports_addParam (pre : Prelude) (done : ParamList) (p : Param) (spec : ParamSpec) :
    Reports (p.name ∉ done.names) pre (pre.addParam done p spec).2 ∧
      (p.name ∉ done.names → (pre.addParam done p spec).1 = done ++ [(p.name, spec)]) := by
  have listed : done.get? p.name = none ↔ p.name ∉ done.names := by
    simp only [ParamList.get?, ParamList.names, Option.map_eq_none_iff, List.find?_eq_none,
      List.mem_map, decide_eq_true_eq, not_exists, not_and]
  unfold addParam
  cases found : done.get? p.name with
  | some previous =>
    have old : ¬p.name ∉ done.names := by
      rw [← listed, found]
      exact nofun
    exact ⟨.fault old, fun new => absurd new old⟩
  | none => exact ⟨.nothing (listed.mp found), fun _ => rfl⟩

theorem reports_params (ordered seen : Bool) (done : ParamList) (pre : Prelude) (ps : List Param) :
    Reports (Admits pre.findType? ordered seen done.names ps) pre
      (pre.params ordered seen done ps).2 := by
  induction ps generalizing seen done pre with
  | nil =>
    have admits : Admits pre.findType? ordered seen done.names [] :=
      ⟨nofun, fun _ => ⟨fun _ => nofun, .nil⟩, .nil, nofun⟩
    exact .nothing admits
  | cons p rest ih =>
    rw [admits_cons_iff]
    obtain ⟨checked, due, whole⟩ := params_cons ordered seen done pre p rest
    obtain ⟨added, kept⟩ := reports_addParam checked done p (p.spec pre.findType?)
    have here := due.trans added
    have below := ih (seen || p.default?.isSome)
      (checked.addParam done p (p.spec pre.findType?)).1
      (checked.addParam done p (p.spec pre.findType?)).2
    rw [here.findType?] at below
    rw [whole]
    refine (here.trans below).of_iff ?_
    rw [and_assoc]
    refine and_congr_right fun _ => and_congr_right fun new => ?_
    rw [kept new]
    simp [ParamList.names]

theorem params_fst {ordered seen : Bool} {done : ParamList} {pre : Prelude} {ps : List Param}
    (h : Admits pre.findType? ordered seen done.names ps) :
    (pre.params ordered seen done ps).1 = done ++ paramList pre.findType? ps := by
  induction ps generalizing seen done pre with
  | nil => exact (List.append_nil done).symm
  | cons p rest ih =>
    obtain ⟨-, new, below⟩ := admits_cons_iff.mp h
    obtain ⟨checked, due, whole⟩ := params_cons ordered seen done pre p rest
    obtain ⟨added, kept⟩ := reports_addParam checked done p (p.spec pre.findType?)
    have sameTypes := (due.trans added).findType?
    have names : (done ++ [(p.name, p.spec pre.findType?)] : ParamList).names =
        done.names ++ [p.name] := by simp [ParamList.names]
    rw [whole, kept new, ih (by rwa [sameTypes, names]), sameTypes, List.append_assoc]
    rfl

/-! ## Symbols -/

theorem unqualified_fullName (module? : Option String) {name : String}
    (dotless : '.' ∉ name.toList) : unqualified (fullName module? name) = name := by
  cases module? with
  | none => exact unqualified_of_dotless dotless
  | some path => exact unqualified_qualified path dotless

/-- A symbol is added exactly if its name is new among the local names. -/
theorem addSymbol_binds {pre : Prelude} {locals : List String} (h : pre.table.Binds locals)
    {symbol : Symbol} (dotless : '.' ∉ symbol.name.toList) :
    ∃ table, table.Binds (symbol.name :: locals) ∧
      Reports (symbol.name ∉ locals) { pre with table } (pre.addSymbol symbol) := by
  unfold addSymbol
  by_cases old : symbol.name ∈ locals
  · obtain ⟨fault, fails⟩ := h.define_error old
    have nothingNew : pre.table.Binds (symbol.name :: locals) := h.congr (by simp [old])
    rw [fails]
    exact ⟨pre.table, nothingNew, .fault (not_not_intro old)⟩
  · obtain ⟨id, table, defined, binds, known, others⟩ := h.define_ok dotless old
    rw [defined]
    dsimp only
    split
    · exact ⟨table, binds, .nothing old⟩
    · rename_i differs
      rw [qualify_eq_fullName] at differs ⊢
      have own := unqualified_fullName pre.module? dotless
      have free := others _ differs (h.free (own.symm ▸ old))
      have among : unqualified (fullName pre.module? symbol.name) ∈ symbol.name :: locals :=
        own.symm ▸ List.mem_cons_self
      obtain ⟨aliased, added, both⟩ := binds.addAlias known free among
      rw [added]
      exact ⟨aliased, both, .nothing old⟩

/-! ## Declarations -/

/-- The rules for one declaration but for its own name. -/
structure Accepts (find : String → Option Ty) (d : Declared) : Prop where
  params : Admits find (d matches .function ..) false [] d.params
  annotation : ∀ text ∈ d.annotation?, (find text).isSome

theorem reports_resultAnnotation (pre : Prelude) (ty? : Option String) (span : Span) :
    Reports (∀ text ∈ ty?, (pre.findType? text).isSome) pre (pre.resultAnnotation ty? span).2 :=
  reports_annotation pre ty? span

/-- What a step of the defining pass leaves behind. -/
structure Defines (ok : Prop) (locals : List String) (pre pre' : Prelude) : Prop where
  binds : pre'.table.Binds locals
  structures : pre'.structures = pre.structures
  faults : ∃ new, pre'.faults = pre.faults ++ new ∧ (new = [] ↔ ok)

theorem Reports.defines {pre pre' : Prelude} {d : Declared} {locals : List String}
    (h : Reports (Accepts pre.findType? d) pre pre') (binds : pre.table.Binds locals)
    (dotless : ∀ name ∈ d.name?, '.' ∉ name.toList) {symbol : Symbol}
    (named : d.name? = some symbol.name) :
    Defines (Accepts pre.findType? d ∧ ∀ name ∈ d.name?, name ∉ locals)
      (d.name?.toList ++ locals) pre (pre'.addSymbol symbol) := by
  rw [named] at dotless ⊢
  obtain ⟨new, rfl, empty⟩ := h
  have binds : ({ pre with faults := pre.faults ++ new } : Prelude).table.Binds locals := binds
  obtain ⟨table, both, new', whole, empty'⟩ := addSymbol_binds binds (dotless symbol.name rfl)
  rw [whole]
  refine ⟨both, rfl, new ++ new', by simp, ?_⟩
  rw [List.append_eq_nil_iff, empty, empty']
  refine and_congr_right fun _ => ⟨fun fresh name mem => ?_, fun fresh => fresh _ rfl⟩
  exact Option.some.inj mem ▸ fresh

theorem resultAnnotation_fst (pre : Prelude) (ty? : Option String) (span : Span) :
    (pre.resultAnnotation ty? span).1 = annotated pre.findType? ty? := by
  unfold resultAnnotation annotated
  rw [← annotation_fst pre ty? span]

/-- A declaration of a name is checked, and then a symbol of that name is added: the one that the
declaration stands for if it breaks no rule. -/
theorem define_eq_addSymbol (pre : Prelude) {d : Declaration} {name : String}
    (named : d.declared.name? = some name) :
    ∃ checked symbol, Reports (Accepts pre.findType? d.declared) pre checked ∧
      pre.define d = checked.addSymbol symbol ∧ symbol.name = name ∧
      (Accepts pre.findType? d.declared →
        d.symbol? pre.findType? pre.module? = some symbol) := by
  obtain ⟨declared, span⟩ := d
  cases declared with
  | inModule => cases named
  | function name ps returns? =>
    cases named
    have listed := reports_params true false [] pre ps
    let behind := (pre.params true false [] ps).2
    have returned := reports_resultAnnotation behind returns? span
    have result := resultAnnotation_fst behind returns? span
    -- Taking in the parameters has changed no structure.
    rw [listed.findType?] at returned result
    have rules : Reports (Accepts pre.findType? (.function name ps returns?)) pre
        (behind.resultAnnotation returns? span).2 :=
      (listed.trans returned).of_iff
        ⟨fun ⟨params, annotation⟩ => ⟨params, annotation⟩,
          fun ⟨params, annotation⟩ => ⟨params, annotation⟩⟩
    refine ⟨_, .function name (pre.params true false [] ps).1
      (behind.resultAnnotation returns? span).1 span, rules, rfl, rfl, fun accepts => ?_⟩
    rw [params_fst accepts.params, result]
    rfl
  | struct name fields =>
    cases named
    have rules : Reports (Accepts pre.findType? (.struct name fields)) pre
        (pre.params false false [] fields).2 :=
      (reports_params false false [] pre fields).of_iff
        ⟨fun params => ⟨params, nofun⟩, fun accepts => accepts.params⟩
    refine ⟨_, .struct name (pre.qualify name) (pre.params false false [] fields).1 span, rules,
      rfl, rfl, fun accepts => ?_⟩
    rw [params_fst accepts.params, qualify_eq_fullName]
    rfl
  | var name ty? =>
    cases named
    have noParams : Admits pre.findType? false false [] [] :=
      ⟨nofun, fun _ => ⟨fun _ => nofun, .nil⟩, .nil, nofun⟩
    have held := reports_resultAnnotation pre ty? span
    have rules : Reports (Accepts pre.findType? (.var name ty?)) pre
        (pre.resultAnnotation ty? span).2 :=
      held.of_iff ⟨fun annotation => ⟨noParams, annotation⟩, fun accepts => accepts.annotation⟩
    refine ⟨_, .var name (pre.resultAnnotation ty? span).1 span, rules, rfl, rfl,
      fun accepts => ?_⟩
    rw [resultAnnotation_fst]
    rfl

theorem define_defines {pre : Prelude} {locals : List String} (binds : pre.table.Binds locals)
    {d : Declaration} (dotless : ∀ name ∈ d.declared.name?, '.' ∉ name.toList) :
    Defines (Accepts pre.findType? d.declared ∧ ∀ name ∈ d.declared.name?, name ∉ locals)
      (d.declared.name?.toList ++ locals) pre (pre.define d) := by
  cases named : d.declared.name? with
  | none =>
    obtain ⟨declared, span⟩ := d
    cases declared with
    | inModule path =>
      have accepts : Accepts pre.findType? (.inModule path) :=
        ⟨⟨nofun, nofun, .nil, nofun⟩, nofun⟩
      exact ⟨binds, rfl, [], by simp [define], iff_of_true rfl ⟨accepts, nofun⟩⟩
    | function | struct | var => cases named
  | some name =>
    obtain ⟨checked, symbol, rules, whole, rfl, -⟩ := pre.define_eq_addSymbol named
    rw [whole, ← named]
    exact rules.defines binds dotless named

theorem nodup_and_new_iff {here below locals : List String} (once : here.Nodup) :
    ((here ++ below).Nodup ∧ ∀ name ∈ here ++ below, name ∉ locals) ↔
      (∀ name ∈ here, name ∉ locals) ∧ below.Nodup ∧ ∀ name ∈ below, name ∉ here ++ locals := by
  rw [List.nodup_append, List.forall_mem_append]
  constructor
  · rintro ⟨⟨-, nodup, apart⟩, newHere, newBelow⟩
    refine ⟨newHere, nodup, fun name mem old => ?_⟩
    rcases List.mem_append.mp old with again | before
    · exact apart name again name mem rfl
    · exact newBelow name mem before
  · rintro ⟨newHere, nodup, fresh⟩
    refine ⟨⟨once, nodup, fun name mem other mem' same => ?_⟩, newHere, fun name mem old => ?_⟩
    · exact fresh other mem' (List.mem_append_left _ (same ▸ mem))
    · exact fresh name mem (List.mem_append_right _ old)

theorem foldl_define_defines {ds : List Declaration}
    (dotless : ∀ d ∈ ds, ∀ name ∈ d.declared.name?, '.' ∉ name.toList) {pre : Prelude}
    {locals : List String} (binds : pre.table.Binds locals) :
    ∃ new, (ds.foldl define pre).faults = pre.faults ++ new ∧
      (new = [] ↔ (∀ d ∈ ds, Accepts pre.findType? d.declared) ∧
        (localNames ds).Nodup ∧ ∀ name ∈ localNames ds, name ∉ locals) := by
  induction ds generalizing pre locals with
  | nil => exact ⟨[], by simp, by simp [localNames]⟩
  | cons d rest ih =>
    obtain ⟨dotlessHere, dotlessBelow⟩ := List.forall_mem_cons.mp dotless
    have step := define_defines binds dotlessHere
    obtain ⟨new, here, empty⟩ := step.faults
    obtain ⟨new', below, empty'⟩ := ih dotlessBelow step.binds
    have sameTypes : (pre.define d).findType? = pre.findType? := by
      funext text
      simp only [findType?, step.structures]
    rw [sameTypes] at empty'
    refine ⟨new ++ new', by rw [List.foldl_cons, below, here, List.append_assoc], ?_⟩
    have names : localNames (d :: rest) = d.declared.name?.toList ++ localNames rest := rfl
    have once : d.declared.name?.toList.Nodup := by cases d.declared.name? <;> simp
    rw [List.append_eq_nil_iff, empty, empty', List.forall_mem_cons, names, nodup_and_new_iff once]
    simp only [Option.mem_toList]
    constructor
    · rintro ⟨⟨accepts, new⟩, others, distinct⟩
      exact ⟨⟨accepts, others⟩, new, distinct⟩
    · rintro ⟨⟨accepts, others⟩, new, distinct⟩
      exact ⟨⟨accepts, new⟩, others, distinct⟩

theorem foldl_collect_keeps (ds : List Declaration) (pre : Prelude) :
    (ds.foldl collect pre).table = pre.table ∧ (ds.foldl collect pre).faults = pre.faults := by
  induction ds generalizing pre with
  | nil => exact ⟨rfl, rfl⟩
  | cons d rest ih =>
    obtain ⟨table, faults⟩ := ih (pre.collect d)
    rw [List.foldl_cons, table, faults]
    unfold collect
    split <;> exact ⟨rfl, rfl⟩

theorem accepts_iff {pre : Prelude} {ds : List Declaration} (h : pre.Collected ds) {d : Declared} :
    Accepts pre.findType? d ↔ Keeps (Denotes ds) d := by
  constructor
  · rintro ⟨⟨types, order, distinct, -⟩, annotation⟩
    refine ⟨distinct, fun text mem => ?_, fun p mem text given value default => ?_, ?_⟩
    · apply (findType?_isSome_iff h).mp
      rcases List.mem_append.mp mem with param | own
      · obtain ⟨p, among, given⟩ := List.mem_filterMap.mp param
        exact (types p among text given).1
      · exact annotation text (Option.mem_toList.mp own)
    · exact (findType?_eq_ty_iff h).mp ((types p mem text given).2 value default)
    · rintro name ps returns? rfl
      exact (order rfl).2
  · rintro ⟨distinct, types, defaults, order⟩
    refine ⟨⟨fun p mem text given => ⟨?_, fun value default => ?_⟩, fun isFunction => ?_, distinct,
      nofun⟩, fun text own => ?_⟩
    · have param := List.mem_filterMap.mpr ⟨p, mem, given⟩
      have among := List.mem_append_left d.annotation?.toList param
      exact (findType?_isSome_iff h).mpr (types text among)
    · exact (findType?_eq_ty_iff h).mpr (defaults p mem text given value default)
    · refine ⟨nofun, ?_⟩
      cases d with
      | function name ps returns? => exact order name ps returns? rfl
      | inModule | struct | var => cases isFunction
    · have among := List.mem_append_right (d.params.filterMap Param.ty?) (Option.mem_toList.mpr own)
      exact (findType?_isSome_iff h).mpr (types text among)

end Prelude

theorem dotless_of_spelled {ds : List Declaration} {ls : List Lexeme} (h : Spelled ds ls)
    (scanned : ∀ l ∈ ls, l.IsScanned) :
    ∀ d ∈ ds, ∀ name ∈ d.declared.name?, '.' ∉ name.toList := by
  induction h with
  | nil => exact nofun
  | @cons d ds ls trailing below ih =>
    obtain ⟨here, rest⟩ := List.forall_mem_append.mp scanned
    refine List.forall_mem_cons.mpr ⟨fun name named => ?_, ih rest⟩
    have spelled : Lexeme.name name ∈ d.declared.lexemes trailing := by
      obtain ⟨declared, span⟩ := d
      cases declared with
      | inModule => cases named
      | function | struct | var =>
        cases named
        exact List.mem_cons_of_mem _ List.mem_cons_self
    exact Lexeme.dotless_of_isScanned (here _ spelled)

theorem ScopeTable.ofDeclarations_eq_ok_iff {ds : List Declaration} {table : ScopeTable} :
    ScopeTable.ofDeclarations ds = .ok table ↔
      (Prelude.empty.extend ds).1 = [] ∧ (Prelude.empty.extend ds).2.table = table := by
  unfold ScopeTable.ofDeclarations
  obtain ⟨faults, pre⟩ := Prelude.empty.extend ds
  cases faults <;> simp

theorem ofDeclarations_ok_iff {ds : List Declaration}
    (dotless : ∀ d ∈ ds, ∀ name ∈ d.declared.name?, '.' ∉ name.toList) :
    (∃ table, ScopeTable.ofDeclarations ds = .ok table) ↔ WellFormed ds := by
  let pre : Prelude := { ds.foldl Prelude.collect .empty with module? := none }
  have collected : pre.Collected ds := Prelude.collected_foldl_collect ds
  obtain ⟨table, faults⟩ := Prelude.foldl_collect_keeps ds .empty
  have binds : pre.table.Binds [] := table ▸ ScopeTable.binds_empty
  obtain ⟨new, found, empty⟩ := Prelude.foldl_define_defines dotless binds
  have nothingYet : pre.faults = [] := faults
  have whole : (Prelude.empty.extend ds).1 = new := by
    rw [nothingYet] at found
    exact found
  simp only [ScopeTable.ofDeclarations_eq_ok_iff, exists_and_left, exists_eq', and_true]
  rw [whole, empty, wellFormed_iff_keeps]
  constructor
  · rintro ⟨accepts, names, -⟩
    exact ⟨names, fun d mem => (Prelude.accepts_iff collected).mp (accepts d mem)⟩
  · rintro ⟨names, keeps⟩
    exact ⟨fun d mem => (Prelude.accepts_iff collected).mpr (keeps d mem), names, nofun⟩

theorem dotless_of_readDeclarations {source : String} {ds : List Declaration}
    (read : readDeclarations source = .ok ds) :
    ∀ d ∈ ds, ∀ name ∈ d.declared.name?, '.' ∉ name.toList := by
  obtain ⟨lexemes, scanned⟩ := exists_scan_of_readDeclarations read
  have texts : ∀ l ∈ (meaningful lexemes).map Spanned.value, l.IsScanned := by
    intro l mem
    obtain ⟨spanned, kept, rfl⟩ := List.mem_map.mp mem
    exact Lexeme.isScanned_of_scan scanned spanned (List.mem_filter.mp kept).1
  exact dotless_of_spelled (spelled_of_readDeclarations scanned read) texts

/-- The declarations of a source have a table exactly if they are a well-formed prelude. -/
theorem wellFormed_iff_ofDeclarations {source : String} {ds : List Declaration}
    (read : readDeclarations source = .ok ds) :
    (∃ table, ScopeTable.ofDeclarations ds = .ok table) ↔ WellFormed ds :=
  ofDeclarations_ok_iff (dotless_of_readDeclarations read)

/- The annotation names a structure that is declared later, with its module in front. -/
theorem wellFormed_iff_ofDeclarations_later :
    ∃ ds, readDeclarations "module m\nlet a: m.P\nstruct P(x = 1)" = .ok ds ∧ WellFormed ds := by
  obtain ⟨lexemes, scanned, same⟩ : ∃ lexemes,
      Lexeme.scan "module m\nlet a: m.P\nstruct P(x = 1)" = .ok lexemes ∧
      meaningful lexemes =
        [⟨.name "module", ⟨0, 6⟩⟩, ⟨.name "m", ⟨7, 8⟩⟩, ⟨.name "let", ⟨9, 12⟩⟩,
          ⟨.name "a", ⟨13, 14⟩⟩, ⟨.op ":", ⟨14, 15⟩⟩, ⟨.name "m", ⟨16, 17⟩⟩, ⟨.dot, ⟨17, 18⟩⟩,
          ⟨.name "P", ⟨18, 19⟩⟩, ⟨.name "struct", ⟨20, 26⟩⟩, ⟨.name "P", ⟨27, 28⟩⟩,
          ⟨.opening .paren, ⟨28, 29⟩⟩, ⟨.name "x", ⟨29, 30⟩⟩, ⟨.op "=", ⟨31, 32⟩⟩,
          ⟨.number "1", ⟨33, 34⟩⟩, ⟨.closing .paren, ⟨34, 35⟩⟩] :=
    ⟨_, Lexeme.scanFrom_eq_ok_iff.mpr
      (.lexeme rfl rfl (.blank rfl (.lexeme rfl rfl (.lexeme rfl rfl (.lexeme rfl rfl
      (.blank rfl (.lexeme rfl rfl (.lexeme rfl rfl (.blank rfl (.lexeme rfl rfl
      (.lexeme rfl rfl (.lexeme rfl rfl (.lexeme rfl rfl (.lexeme rfl rfl (.blank rfl
      (.lexeme rfl rfl (.lexeme rfl rfl (.lexeme rfl rfl (.blank rfl (.lexeme rfl rfl
      (.blank rfl (.lexeme rfl rfl (.lexeme rfl rfl (.done _)))))))))))))))))))))))), rfl⟩
  let ds : List Declaration :=
    [⟨.inModule "m", ⟨0, 8⟩⟩, ⟨.var "a" (some "m.P"), ⟨9, 19⟩⟩,
      ⟨.struct "P" [⟨"x", none, some (.number "1"), ⟨29, 34⟩⟩], ⟨20, 35⟩⟩]
  have read : readDeclarations "module m\nlet a: m.P\nstruct P(x = 1)" = .ok ds := by
    rw [readDeclarations_eq_ok_iff scanned, same]
    rfl
  exact ⟨ds, read, (wellFormed_iff_ofDeclarations read).mp ⟨_, rfl⟩⟩

end ExprCheck
