import ExprCheck.Proofs.Lexeme.Lossless
import ExprCheck.Proofs.Prelude.WellFormed
/-! Where declarations and the faults of a prelude lie. The reader takes a span from the first
lexeme of a declaration or of a parameter to its last one, and every check of the defining pass has
the span of what it checks. Main statements: declarations and their parameters lie in the source,
and a fault lies where one of them does. -/
namespace ExprCheck

/-- Where a declaration and its parameters lie. -/
def Declaration.spans (d : Declaration) : List Span :=
  d.span :: d.declared.params.map Param.span

/-- A new range is an old one, that of the lexeme, or an old one that goes on to its end. -/
def Grows (old new : List Span) (l : Span) : Prop :=
  ∀ s ∈ new, s ∈ old ∨ s = l ∨ ∃ t ∈ old, s = ⟨t.start, l.stop⟩

theorem Grows.of_subset {old new : List Span} (part : new ⊆ old) (l : Span) : Grows old new l :=
  fun _ mem => .inl (part mem)

theorem Grows.endsBy {old new : List Span} {l : Span} (h : Grows old new l) {bound : Nat}
    (before : ∀ s ∈ old, s.EndsBy bound) (behind : bound ≤ l.start) (forward : l.start ≤ l.stop) :
    ∀ s ∈ new, s.EndsBy l.stop := by
  intro s mem
  rcases h s mem with kept | rfl | ⟨t, kept, rfl⟩
  · have ends := before s kept
    exact ⟨ends.1, Nat.le_trans ends.2 (Nat.le_trans behind forward)⟩
  · exact ⟨forward, Nat.le_refl _⟩
  · have ends := before t kept
    exact ⟨Nat.le_trans ends.1 (Nat.le_trans ends.2 (Nat.le_trans behind forward)), Nat.le_refl _⟩

namespace PartialParams

def spans (ps : PartialParams) : List Span :=
  ps.finished.map Param.span ++ (ps.current?.map PartialParam.span).toList

theorem spans_done {ps : PartialParams} {params : List Param} (done : ps.done? = some params) :
    params.map Param.span = ps.spans := by
  obtain ⟨finished, current?⟩ := ps
  cases current? with
  | none =>
    cases done
    simp [spans]
  | some p =>
    obtain ⟨param, here, rfl⟩ := Option.map_eq_some_iff.mp done
    have same : param.span = p.span := by
      unfold PartialParam.done? at here
      split at here
      · cases here
        rfl
      · obtain ⟨ty, -, rfl⟩ := Option.map_eq_some_iff.mp here
        rfl
      · cases here
      · cases here
        rfl
    simp [spans, same]

theorem grows_next {ps ps' : PartialParams} {l : Spanned Lexeme} (taken : ps.next? l = some ps') :
    Grows ps.spans ps'.spans l.span := by
  obtain ⟨finished, current?⟩ := ps
  unfold next? at taken
  split at taken
  · rename_i text none name
    cases none
    cases taken
    intro s mem
    rcases List.mem_append.mp mem with old | new
    · exact .inl (List.mem_append_left _ old)
    · exact .inr (.inl (List.mem_singleton.mp new))
  · cases taken
  · obtain ⟨params, done, rfl⟩ := Option.map_eq_some_iff.mp taken
    refine .of_subset ?_ l.span
    rw [← spans_done done]
    simp [spans]
  · rename_i p some _
    cases some
    obtain ⟨p', next, rfl⟩ := Option.map_eq_some_iff.mp taken
    obtain ⟨stage, -, rfl⟩ := Option.map_eq_some_iff.mp next
    intro s mem
    rcases List.mem_append.mp mem with old | new
    · exact .inl (List.mem_append_left _ old)
    · exact .inr (.inr ⟨p.span, by simp [spans], List.mem_singleton.mp new⟩)

end PartialParams

namespace Stage

def spans : Stage → List Span
  | listing _ _ params => params.spans
  | signature _ params | returning _ params _ | fields _ params => params.map Param.span
  | inModule _ | heading _ | headed .. | binding | bound _ | typing .. => []

theorem spans_done {s : Stage} {d : Declared} (done : s.done? = some d) :
    d.params.map Param.span = s.spans := by
  cases s with
  | signature | fields | bound =>
    cases done
    rfl
  | inModule | returning | typing =>
    obtain ⟨path, -, rfl⟩ := Option.map_eq_some_iff.mp done
    rfl
  | heading | headed | listing | binding => cases done

theorem grows_next {s s' : Stage} {l : Spanned Lexeme} (taken : s.next? l = some s') :
    Grows s.spans s'.spans l.span := by
  unfold next? at taken
  split at taken
  · obtain ⟨path, -, rfl⟩ := Option.map_eq_some_iff.mp taken
    exact nofun
  · cases taken
    exact nofun
  · cases taken
    exact nofun
  · rename_i kind name params _
    obtain ⟨listed, done, rfl⟩ := Option.map_eq_some_iff.mp taken
    have same : (Stage.listed name listed kind).spans = params.spans := by
      rw [← PartialParams.spans_done done]
      cases kind <;> rfl
    exact .of_subset (same ▸ List.Subset.refl _) l.span
  · obtain ⟨params, next, rfl⟩ := Option.map_eq_some_iff.mp taken
    exact PartialParams.grows_next next
  · cases taken
    exact .of_subset (List.Subset.refl _) l.span
  · obtain ⟨path, -, rfl⟩ := Option.map_eq_some_iff.mp taken
    exact .of_subset (List.Subset.refl _) l.span
  · cases taken
    exact nofun
  · cases taken
    exact nofun
  · obtain ⟨path, -, rfl⟩ := Option.map_eq_some_iff.mp taken
    exact nofun
  · cases taken

end Stage

namespace Reading

def spans (r : Reading) : List Span :=
  r.finished.flatMap Declaration.spans ++
    match r.current? with
    | none => []
    | some (stage, span) => span :: stage.spans

theorem spans_done {r : Reading} {ds : List Declaration} (done : r.done? = some ds) :
    ds.flatMap Declaration.spans = r.spans := by
  obtain ⟨finished, current?⟩ := r
  cases current? with
  | none =>
    cases done
    simp [spans]
  | some opened =>
    obtain ⟨stage, span⟩ := opened
    obtain ⟨d, here, rfl⟩ := Option.map_eq_some_iff.mp done
    simp [spans, Declaration.spans, Stage.spans_done here]

theorem grows_next {r r' : Reading} {l : Spanned Lexeme} (taken : r.next? l = some r') :
    Grows r.spans r'.spans l.span := by
  rcases Option.or_eq_some_iff.mp taken with extended | ⟨-, begun⟩
  · obtain ⟨finished, current?⟩ := r
    cases current? with
    | none => cases extended
    | some opened =>
      obtain ⟨stage, span⟩ := opened
      obtain ⟨stage', next, rfl⟩ := Option.map_eq_some_iff.mp extended
      intro s mem
      rcases List.mem_append.mp mem with old | new
      · exact .inl (List.mem_append_left _ old)
      rcases List.mem_cons.mp new with rfl | inside
      · exact .inr (.inr ⟨span, by simp [spans], rfl⟩)
      rcases Stage.grows_next next s inside with old | rfl | ⟨t, old, rfl⟩
      · exact .inl (by simp [spans, old])
      · exact .inr (.inl rfl)
      · exact .inr (.inr ⟨t, by simp [spans, old], rfl⟩)
  · obtain ⟨finished, done, more⟩ := Option.bind_eq_some_iff.mp begun
    obtain ⟨stage, begins, same⟩ := Option.bind_eq_some_iff.mp more
    cases same
    have empty : stage.spans = [] := by
      unfold Stage.start? at begins
      split at begins <;> cases begins <;> rfl
    intro s mem
    rcases List.mem_append.mp mem with old | new
    · exact .inl (spans_done done ▸ old)
    · have here : s ∈ l.span :: stage.spans := new
      rw [empty] at here
      exact .inr (.inl (List.mem_singleton.mp here))

theorem spans_run {r : Reading} {ls : List (Spanned Lexeme)} {ds : List Declaration}
    (read : r.run ls = .ok ds) (order : InOrder ls) {bound size : Nat}
    (before : ∀ s ∈ r.spans, s.EndsBy bound) (behind : ∀ l ∈ ls, bound ≤ l.span.start)
    (inside : ∀ l ∈ ls, l.span.stop ≤ size) (small : bound ≤ size) :
    ∀ d ∈ ds, ∀ s ∈ d.spans, s.EndsBy size := by
  induction ls generalizing r bound with
  | nil =>
    unfold run at read
    split at read
    · rename_i done
      cases read
      intro d mem s own
      have ends := before s (spans_done done ▸ List.mem_flatMap_of_mem mem own)
      exact ⟨ends.1, Nat.le_trans ends.2 small⟩
    · cases read
  | cons l rest ih =>
    unfold run at read
    split at read
    · rename_i taken
      obtain ⟨after, below⟩ := List.pairwise_cons.mp order.apart
      have wide := order.wide l List.mem_cons_self
      have next := (grows_next taken).endsBy before (behind l List.mem_cons_self)
        (Nat.le_of_lt wide)
      exact ih read (order.sublist (List.sublist_cons_self ..)) next after
        (fun m mem => inside m (List.mem_cons_of_mem l mem)) (inside l List.mem_cons_self)
    · cases read

end Reading

/-- The declarations of a source and their parameters lie in it. -/
theorem inside_of_readDeclarations {source : String} {ds : List Declaration}
    (read : readDeclarations source = .ok ds) :
    ∀ d ∈ ds, ∀ s ∈ d.spans, s.EndsBy source.utf8ByteSize := by
  cases scanned : Lexeme.scan source with
  | error e => simp [readDeclarations, scanned] at read
  | ok lexemes =>
    have run := (readDeclarations_eq_ok_iff scanned).mp read
    have part : (meaningful lexemes).Sublist lexemes := List.filter_sublist
    have order := (laidOut_of_scan scanned).toInOrder.sublist part
    have nothing : ∀ s ∈ Reading.start.spans, s.EndsBy 0 := nofun
    exact Reading.spans_run run order nothing (fun _ _ => Nat.zero_le _)
      (fun l mem => inside_of_scan scanned l (part.subset mem)) (Nat.zero_le _)

namespace ScopeTable

variable {t t' : ScopeTable} {f : SpannedFault}

theorem span_of_clash? {name : String} {span : Span} (clash : t.clash? name span = some f) :
    f.span = span := by
  obtain ⟨previous, -, rfl⟩ := Option.map_eq_some_iff.mp clash
  rfl

theorem span_of_define {symbol : Symbol} (fails : t.define symbol = .error f) :
    f.span = symbol.span := by
  unfold define at fails
  split at fails
  · rename_i clash
    cases fails
    exact span_of_clash? clash
  · cases fails

theorem symbols_of_define {symbol : Symbol} {id : Nat} (defined : t.define symbol = .ok (id, t')) :
    t'.symbols[id]? = some symbol := by
  unfold define at defined
  split at defined
  · cases defined
  · cases defined
    exact List.getElem?_concat_length

theorem span_of_addAlias {name : String} {id : Nat} {symbol : Symbol}
    (known : t.symbols[id]? = some symbol) (fails : t.addAlias name id = .error f) :
    f.span = symbol.span := by
  unfold addAlias at fails
  rw [known] at fails
  dsimp only at fails
  split at fails
  · rename_i clash
    cases fails
    exact span_of_clash? clash
  · cases fails

end ScopeTable

namespace Prelude

def FaultsAt (P : Span → Prop) (pre : Prelude) : Prop :=
  ∀ f ∈ pre.faults, P f.span

namespace FaultsAt

variable {P : Span → Prop} {pre : Prelude} {span : Span}

theorem report (h : pre.FaultsAt P) (here : P span) (fault : Fault) :
    (pre.report fault span).FaultsAt P :=
  List.forall_mem_append.mpr ⟨h, List.forall_mem_singleton.mpr here⟩

theorem annotation (h : pre.FaultsAt P) (here : P span) (ty? : Option String) :
    (pre.annotation ty? span).2.FaultsAt P := by
  unfold Prelude.annotation
  split
  · exact h
  split
  · exact h
  · exact h.report here _

theorem result (h : pre.FaultsAt P) (here : P span) (ty? : Option String) :
    (pre.resultAnnotation ty? span).2.FaultsAt P :=
  h.annotation here ty?

theorem checkDefault (h : pre.FaultsAt P) (here : P span) (ty? : Option Ty)
    (default? : Option Expr) : (pre.checkDefault ty? default? span).FaultsAt P := by
  unfold Prelude.checkDefault
  split
  · split
    · exact h
    · exact h.report here _
  · exact h

theorem addParam (h : pre.FaultsAt P) {p : Param} (here : P p.span) (done : ParamList)
    (spec : ParamSpec) : (pre.addParam done p spec).2.FaultsAt P := by
  unfold Prelude.addParam
  split
  · exact h.report here _
  · exact h

theorem params (h : pre.FaultsAt P) {ps : List Param} (here : ∀ p ∈ ps, P p.span)
    (ordered seen : Bool) (done : ParamList) :
    (pre.params ordered seen done ps).2.FaultsAt P := by
  induction ps generalizing pre seen done with
  | nil => exact h
  | cons p rest ih =>
    obtain ⟨first, below⟩ := List.forall_mem_cons.mp here
    have typed := (h.annotation first p.ty?).checkDefault first
      (pre.annotation p.ty? p.span).1 (p.default?.map (Expr.ofLiteral false))
    refine ih (addParam ?_ first done _) below _ _
    split
    · exact typed.report first _
    · exact typed

theorem addSymbol (h : pre.FaultsAt P) {symbol : Symbol} (here : P symbol.span) :
    (pre.addSymbol symbol).FaultsAt P := by
  unfold Prelude.addSymbol
  split
  · rename_i fails
    exact h.report (ScopeTable.span_of_define fails ▸ here) _
  · rename_i defined
    dsimp only
    split
    · exact h
    split
    · rename_i fails
      have known := ScopeTable.symbols_of_define defined
      exact report h (ScopeTable.span_of_addAlias known fails ▸ here) _
    · exact h

theorem define (h : pre.FaultsAt P) {d : Declaration} (here : ∀ s ∈ d.spans, P s) :
    (pre.define d).FaultsAt P := by
  obtain ⟨own, below⟩ := List.forall_mem_cons.mp here
  have listed := List.forall_mem_map.mp below
  unfold Prelude.define
  split
  next => exact h
  next name ps returns? same =>
    rw [same] at listed
    exact ((h.params listed true false []).result own returns?).addSymbol own
  next name fields same =>
    rw [same] at listed
    exact (h.params listed false false []).addSymbol own
  next name ty? same => exact (h.result own ty?).addSymbol own

theorem foldl_define (h : pre.FaultsAt P) {ds : List Declaration}
    (here : ∀ d ∈ ds, ∀ s ∈ d.spans, P s) : (ds.foldl Prelude.define pre).FaultsAt P :=
  List.foldlRecOn ds Prelude.define h fun _ before d mem => before.define (here d mem)

theorem extend (h : pre.FaultsAt P) {ds : List Declaration}
    (here : ∀ d ∈ ds, ∀ s ∈ d.spans, P s) : ∀ f ∈ (pre.extend ds).1, P f.span := by
  have same := (foldl_collect_keeps ds pre).2
  have collected : FaultsAt P { ds.foldl collect pre with module? := none } :=
    fun f mem => h f (same ▸ mem)
  exact collected.foldl_define here

end FaultsAt

end Prelude

/-- A fault lies where one of the declarations or one of its parameters lies. -/
theorem ScopeTable.spans_of_ofDeclarations {ds : List Declaration} {faults : List SpannedFault}
    (fails : ScopeTable.ofDeclarations ds = .error faults) :
    ∀ f ∈ faults, ∃ d ∈ ds, f.span ∈ d.spans := by
  have none : Prelude.empty.FaultsAt fun s => ∃ d ∈ ds, s ∈ d.spans := List.forall_mem_nil _
  have all := none.extend fun d mem s own => ⟨d, mem, own⟩
  unfold ScopeTable.ofDeclarations at fails
  split at fails
  · cases fails
  · rename_i found
    cases fails
    rwa [found] at all

end ExprCheck
