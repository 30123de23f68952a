import ExprCheck.Proofs.Declaration.Spelling
import ExprCheck.Proofs.Lexeme.Feed
/-! Reading spellings. A spelling is read back as the declarations that it spells; only their spans
come from the lexemes. Main statement: a source is read without a fault exactly if its lexemes are a
spelling, and what is read is what they spell. -/
namespace ExprCheck

/-! ## Declarations without spans -/

def Param.bare (p : Param) : Param :=
  { p with span := .point 0 }

def Declared.bare : Declared → Declared
  | inModule path => inModule path
  | function name ps returns? => function name (ps.map Param.bare) returns?
  | struct name fields => struct name (fields.map Param.bare)
  | var name ty? => var name ty?

def Declaration.bare (d : Declaration) : Declaration :=
  ⟨d.declared.bare, .point 0⟩

theorem listedLexemes_bare (trailing : Bool) (ps : List Param) :
    listedLexemes trailing (ps.map Param.bare) = listedLexemes trailing ps := by
  induction ps with
  | nil => rfl
  | cons p rest ih =>
    cases rest with
    | nil => rfl
    | cons next others =>
      simp only [List.map_cons] at ih
      simp only [List.map_cons, listedLexemes, ih]
      rfl

theorem Declared.lexemes_bare (trailing : Bool) (d : Declared) :
    d.bare.lexemes trailing = d.lexemes trailing := by
  cases d with
  | function name ps returns? | struct name ps =>
    simp only [bare, lexemes, paramsLexemes, listedLexemes_bare]
  | inModule | var => rfl

theorem spelled_bare_iff {ds : List Declaration} {ls : List Lexeme} :
    Spelled (ds.map Declaration.bare) ls ↔ Spelled ds ls := by
  induction ds generalizing ls with
  | nil => exact Iff.rfl
  | cons d rest ih =>
    constructor
    · intro spelled
      cases spelled with
      | cons trailing below =>
        change Spelled _ (d.declared.bare.lexemes trailing ++ _)
        rw [Declared.lexemes_bare]
        exact .cons trailing (ih.mp below)
    · intro spelled
      cases spelled with
      | cons trailing below =>
        rw [← Declared.lexemes_bare]
        exact .cons (d := d.bare) trailing (ih.mpr below)

/-! ## Readers inside readers -/

/-- A reader that answers every step of another one answers every run of it. -/
theorem foldlM_follows {σ σ' α α' : Type} {step : σ → α → Option σ} (step' : σ' → α' → Option σ')
    {view : α' → α} (R : σ → σ' → Prop) {s t : σ} (s' : σ') {ls : List α'}
    (run : (ls.map view).foldlM step s = some t) (related : R s s')
    (follows : ∀ s t s' l, R s s' → step s (view l) = some t →
      ∃ t', step' s' l = some t' ∧ R t t') :
    ∃ t', ls.foldlM step' s' = some t' ∧ R t t' := by
  induction ls generalizing s s' with
  | nil =>
    cases run
    exact ⟨s', rfl, related⟩
  | cons l rest ih =>
    rw [List.map_cons, List.foldlM_cons] at run
    obtain ⟨mid, here, below⟩ := Option.bind_eq_some_iff.mp run
    obtain ⟨mid', here', related'⟩ := follows s mid s' l related here
    obtain ⟨t', below', done⟩ := ih mid' below related'
    exact ⟨t', by rw [List.foldlM_cons, here']; exact below', done⟩

theorem foldlM_inside {σ σ' α α' : Type} {step : σ → α → Option σ} {step' : σ' → α' → Option σ'}
    {view : α' → α} {wrap : σ → σ'}
    (hands : ∀ s t l, step s (view l) = some t → step' (wrap s) l = some (wrap t)) {s t : σ}
    {ls : List α'} (run : (ls.map view).foldlM step s = some t) :
    ls.foldlM step' (wrap s) = some (wrap t) := by
  obtain ⟨_, reads, rfl⟩ := foldlM_follows step' (fun s s' => s' = wrap s) (wrap s) run rfl (by
    rintro s t s' l rfl next
    exact ⟨wrap t, hands s t l next, rfl⟩)
  exact reads

theorem foldlM_append_some {σ α : Type} {step : σ → α → Option σ} {s t u : σ} {ls ms : List α}
    (first : ls.foldlM step s = some t) (second : ms.foldlM step t = some u) :
    (ls ++ ms).foldlM step s = some u := by
  rw [List.foldlM_append, first]
  exact second

namespace PartialPath

theorem foldlM_dotted {names : List String} (some : names ≠ []) (before : List String) :
    (dotted names).foldlM next? ⟨before, true⟩ = .some ⟨before ++ names, false⟩ := by
  induction names generalizing before with
  | nil => exact absurd rfl some
  | cons name rest ih =>
    cases rest with
    | nil => rfl
    | cons second rest =>
      have below := ih (List.cons_ne_nil second rest) (before ++ [name])
      rw [List.append_assoc] at below
      exact below

theorem foldlM_path (path : String) :
    (pathLexemes path).foldlM next? start = some ⟨dotParts path, false⟩ :=
  foldlM_dotted (dotParts_ne_nil path) []

theorem done?_dotParts (path : String) : done? ⟨dotParts path, false⟩ = some path :=
  congrArg some (intercalate_dotParts path)

end PartialPath

theorem foldlM_path_inside {σ α : Type} {step : σ → α → Option σ} (view : α → Lexeme)
    {wrap : PartialPath → σ}
    (hands : ∀ p p' l, p.next? (view l) = some p' → step (wrap p) l = some (wrap p'))
    {path : String} {ls : List α} (spells : ls.map view = pathLexemes path) :
    ls.foldlM step (wrap .start) = some (wrap ⟨dotParts path, false⟩) := by
  have run := PartialPath.foldlM_path path
  rw [← spells] at run
  exact foldlM_inside hands run

/-! ## Parameters -/

namespace ParamStage

def behind : Option String → Option Literal → ParamStage
  | none, none => named
  | some ty, none => typing ⟨dotParts ty, false⟩
  | ty?, some value => defaulted ty? value

theorem next?_typing {p p' : PartialPath} {l : Lexeme} (next : p.next? l = some p') :
    next? (typing p) l = some (typing p') := by
  cases l with
  | name | dot => simp [next?, next]
  | _ => cases next

theorem foldlM_annotation (ty? : Option String) :
    (annotationLexemes ":" ty?).foldlM next? named = some (behind ty? none) := by
  cases ty? with
  | none => rfl
  | some ty =>
    have path : (pathLexemes ty).foldlM next? (typing .start) =
        some (typing ⟨dotParts ty, false⟩) :=
      foldlM_path_inside id (fun _ _ _ next => next?_typing next) (List.map_id _)
    exact path

theorem foldlM_default (ty? : Option String) (value : Literal) :
    (defaultLexemes (some value)).foldlM next? (behind ty? none) = some (defaulted ty? value) := by
  have begins : next? (behind ty? none) (.op "=") = some (defaulting ty? false) := by
    cases ty? with
    | none => rfl
    | some ty => simp [behind, next?, PartialPath.done?_dotParts]
  have reads : value.lexemes.foldlM next? (defaulting ty? false) = some (defaulted ty? value) := by
    cases value with
    | str raw => rfl
    | number raw =>
      simp only [Literal.lexemes]
      split
      · rename_i digits minus
        have whole : "-" ++ String.ofList digits = raw := by
          apply String.toList_injective
          simp [minus]
        exact congrArg (fun text => some (defaulted ty? (.number text))) whole
      · rfl
    | bool value => cases value <;> rfl
  rw [defaultLexemes, List.foldlM_cons, begins]
  exact reads

theorem foldlM_behind (ty? : Option String) (default? : Option Literal) :
    (annotationLexemes ":" ty? ++ defaultLexemes default?).foldlM next? named =
      some (behind ty? default?) := by
  have typed := foldlM_annotation ty?
  cases default? with
  | none => simpa [defaultLexemes] using typed
  | some value =>
    have whole := foldlM_append_some typed (foldlM_default ty? value)
    cases ty? <;> exact whole

theorem next?_separator (s : ParamStage) :
    s.next? .comma = none ∧ s.next? (.closing .paren) = none := by
  cases s with
  | defaulting ty? negative => cases negative <;> exact ⟨rfl, rfl⟩
  | named | typing | defaulted => exact ⟨rfl, rfl⟩

end ParamStage

theorem PartialParam.done?_behind (p : Param) (span : Span) :
    done? ⟨p.name, .behind p.ty? p.default?, span⟩ = some { p with span } := by
  obtain ⟨name, ty?, default?, _⟩ := p
  cases ty? <;> cases default? <;>
    simp [done?, ParamStage.behind, PartialPath.done?_dotParts]

namespace PartialParams

theorem foldlM_stage {q : PartialParam} {t : ParamStage} {toks : List (Spanned Lexeme)}
    (run : (toks.map Spanned.value).foldlM ParamStage.next? q.stage = some t)
    (finished : List Param) : ∃ span, toks.foldlM next? ⟨finished, some q⟩ =
      some ⟨finished, some ⟨q.name, t, span⟩⟩ := by
  obtain ⟨_, reads, span, rfl⟩ := foldlM_follows next?
    (fun s ps => ∃ span, ps = ⟨finished, some ⟨q.name, s, span⟩⟩) ⟨finished, some q⟩ run
    ⟨q.span, rfl⟩ (by
      rintro s t _ l ⟨span, rfl⟩ next
      have separators := s.next?_separator
      refine ⟨⟨finished, some ⟨q.name, t, ⟨span.start, l.span.stop⟩⟩⟩, ?_, _, rfl⟩
      unfold next?
      split
      · rename_i absurd _
        cases absurd
      · rename_i absurd _
        cases absurd
      · rename_i comma
        rw [comma, separators.1] at next
        cases next
      · rename_i same _
        cases same
        simp [PartialParam.next?, next])
  exact ⟨span, reads⟩

theorem foldlM_param {p : Param} {toks : List (Spanned Lexeme)}
    (spells : toks.map Spanned.value = p.lexemes) (finished : List Param) :
    ∃ q p', toks.foldlM next? ⟨finished, none⟩ = some ⟨finished, some q⟩ ∧
      q.done? = some p' ∧ p'.bare = p.bare := by
  obtain ⟨first, rest, rfl, value, values⟩ := List.map_eq_cons_iff.mp spells
  have begins : next? ⟨finished, none⟩ first =
      some ⟨finished, some ⟨p.name, .named, first.span⟩⟩ := by
    simp [next?, value]
  have stages := ParamStage.foldlM_behind p.ty? p.default?
  rw [← values] at stages
  obtain ⟨span, reads⟩ := foldlM_stage (q := ⟨p.name, .named, first.span⟩) stages finished
  refine ⟨_, { p with span }, ?_, PartialParam.done?_behind p span, rfl⟩
  rw [List.foldlM_cons, begins]
  exact reads

theorem next?_comma {finished : List Param} {q : PartialParam} {p : Param}
    (done : q.done? = some p) {l : Spanned Lexeme} (comma : l.value = .comma) :
    next? ⟨finished, some q⟩ l = some ⟨finished ++ [p], none⟩ := by
  simp [next?, comma, done?, done]

theorem foldlM_listed {trailing : Bool} {ps : List Param} {toks : List (Spanned Lexeme)}
    (spells : toks.map Spanned.value = listedLexemes trailing ps) (finished : List Param) :
    ∃ q ps', toks.foldlM next? ⟨finished, none⟩ = some q ∧ q.done? = some (finished ++ ps') ∧
      ps'.map Param.bare = ps.map Param.bare := by
  induction ps generalizing toks finished with
  | nil =>
    cases List.map_eq_nil_iff.mp spells
    exact ⟨⟨finished, none⟩, [], rfl, by simp [done?], rfl⟩
  | cons p rest ih =>
    cases rest with
    | nil =>
      obtain ⟨here, comma, rfl, spellsHere, spellsComma⟩ := List.map_eq_append_iff.mp spells
      obtain ⟨q, p', reads, done, same⟩ := foldlM_param spellsHere finished
      cases trailing with
      | false =>
        cases List.map_eq_nil_iff.mp spellsComma
        refine ⟨⟨finished, some q⟩, [p'], by simpa using reads, ?_, by simp [same]⟩
        simp [done?, done]
      | true =>
        obtain ⟨l, none, rfl, value, nothing⟩ := List.map_eq_cons_iff.mp spellsComma
        cases List.map_eq_nil_iff.mp nothing
        refine ⟨⟨finished ++ [p'], none⟩, [p'], foldlM_append_some reads ?_, rfl, by simp [same]⟩
        rw [List.foldlM_cons, next?_comma done value]
        rfl
    | cons next others =>
      obtain ⟨here, more, rfl, spellsHere, spellsMore⟩ := List.map_eq_append_iff.mp spells
      obtain ⟨l, below, rfl, value, spellsBelow⟩ := List.map_eq_cons_iff.mp spellsMore
      obtain ⟨q, p', reads, done, same⟩ := foldlM_param spellsHere finished
      obtain ⟨q', ps', readsBelow, doneBelow, sameBelow⟩ := ih spellsBelow (finished ++ [p'])
      refine ⟨q', p' :: ps', foldlM_append_some reads ?_, ?_, ?_⟩
      · rw [List.foldlM_cons, next?_comma done value]
        exact readsBelow
      · simp [doneBelow]
      · simp [same, sameBelow]

theorem next?_closing (ps : PartialParams) {l : Spanned Lexeme}
    (closes : l.value = .closing .paren) : ps.next? l = none := by
  obtain ⟨finished, current?⟩ := ps
  cases current? with
  | none => simp [next?, closes]
  | some q => simp [next?, closes, PartialParam.next?, q.stage.next?_separator.2]

end PartialParams

/-! ## Declarations -/

namespace Stage

theorem foldlM_listing (kind : Listed) (name : String) {q q' : PartialParams}
    {toks : List (Spanned Lexeme)} (run : toks.foldlM PartialParams.next? q = some q') :
    toks.foldlM next? (listing kind name q) = some (listing kind name q') := by
  have hands : ∀ (q q' : PartialParams) (l : Spanned Lexeme), q.next? l = some q' →
      next? (listing kind name q) l = some (listing kind name q') := by
    intro q q' l next
    have inside : l.value ≠ .closing .paren := by
      intro closes
      rw [q.next?_closing closes] at next
      cases next
    simp [next?, next]
  rw [← List.map_id toks] at run
  exact foldlM_inside hands run

theorem next?_closing (kind : Listed) (name : String) {q : PartialParams} {ps : List Param}
    (done : q.done? = some ps) {l : Spanned Lexeme} (closes : l.value = .closing .paren) :
    next? (listing kind name q) l = some (listed name ps kind) := by
  simp [next?, closes, done]

theorem foldlM_params (kind : Listed) {name : String} {trailing : Bool} {ps : List Param}
    {toks : List (Spanned Lexeme)}
    (spells : toks.map Spanned.value = .name name :: paramsLexemes trailing ps) :
    ∃ ps', toks.foldlM next? (heading kind) = some (listed name ps' kind) ∧
      ps'.map Param.bare = ps.map Param.bare := by
  obtain ⟨called, list, rfl, valueCalled, spellsList⟩ := List.map_eq_cons_iff.mp spells
  obtain ⟨opening, more, rfl, valueOpening, spellsMore⟩ := List.map_eq_cons_iff.mp spellsList
  obtain ⟨inner, last, rfl, spellsInner, spellsLast⟩ := List.map_eq_append_iff.mp spellsMore
  obtain ⟨closing, none, rfl, valueClosing, nothing⟩ := List.map_eq_cons_iff.mp spellsLast
  cases List.map_eq_nil_iff.mp nothing
  obtain ⟨q, ps', reads, done, same⟩ := PartialParams.foldlM_listed spellsInner []
  have heads : next? (heading kind) called = some (headed kind name) := by
    simp [next?, valueCalled]
  have opens : next? (headed kind name) opening = some (listing kind name .start) := by
    simp [next?, valueOpening]
  have closes := next?_closing kind name done valueClosing
  refine ⟨ps', ?_, same⟩
  rw [List.foldlM_cons, heads]
  change (opening :: (inner ++ [closing])).foldlM next? (headed kind name) = _
  rw [List.foldlM_cons, opens]
  refine foldlM_append_some (foldlM_listing kind name reads) ?_
  rw [List.foldlM_cons, closes]
  rfl

theorem foldlM_annotation {bare : Stage} (wrap : PartialPath → Stage) {mark : String}
    (marks : ∀ l : Spanned Lexeme, l.value = .op mark → bare.next? l = some (wrap .start))
    (hands : ∀ p p' (l : Spanned Lexeme), p.next? l.value = some p' →
      (wrap p).next? l = some (wrap p'))
    {ty? : Option String} {toks : List (Spanned Lexeme)}
    (spells : toks.map Spanned.value = annotationLexemes mark ty?) :
    toks.foldlM next? bare = some (ty?.elim bare fun ty => wrap ⟨dotParts ty, false⟩) := by
  cases ty? with
  | none =>
    cases List.map_eq_nil_iff.mp spells
    rfl
  | some ty =>
    obtain ⟨l, path, rfl, value, spellsPath⟩ := List.map_eq_cons_iff.mp spells
    rw [List.foldlM_cons, marks l value]
    exact foldlM_path_inside Spanned.value hands spellsPath

/-- The lexemes that spell a declaration take it from its keyword to where it could end. -/
theorem foldlM_declared {d : Declared} {trailing : Bool} {toks : List (Spanned Lexeme)}
    (spells : toks.map Spanned.value = d.lexemes trailing) :
    ∃ keyword rest s t d', toks = keyword :: rest ∧ start? keyword.value = some s ∧
      rest.foldlM next? s = some t ∧ t.done? = some d' ∧ d'.bare = d.bare := by
  cases d with
  | inModule path =>
    obtain ⟨keyword, rest, rfl, value, spellsRest⟩ := List.map_eq_cons_iff.mp spells
    have reads : rest.foldlM next? (inModule .start) = some (inModule ⟨dotParts path, false⟩) :=
      foldlM_path_inside Spanned.value (fun p p' l next => by simp [next?, next]) spellsRest
    refine ⟨keyword, rest, inModule .start, _, .inModule path, rfl, value ▸ rfl, reads, ?_, rfl⟩
    simp [done?, PartialPath.done?_dotParts]
  | function name ps returns? =>
    obtain ⟨keyword, rest, rfl, value, spellsRest⟩ := List.map_eq_cons_iff.mp spells
    have parts : rest.map Spanned.value =
        (.name name :: paramsLexemes trailing ps) ++ annotationLexemes "->" returns? := spellsRest
    obtain ⟨list, tail, rfl, spellsList, spellsTail⟩ := List.map_eq_append_iff.mp parts
    obtain ⟨ps', readsList, same⟩ := foldlM_params .function spellsList
    have readsTail : tail.foldlM next? (signature name ps') = _ :=
      foldlM_annotation (returning name ps') (fun l value => by simp [next?, value])
        (fun p p' l next => by simp [next?, next]) spellsTail
    refine ⟨keyword, list ++ tail, heading .function, _, .function name ps' returns?, rfl,
      value ▸ rfl, foldlM_append_some readsList readsTail, ?_, by simp [Declared.bare, same]⟩
    cases returns? with
    | none => rfl
    | some ty => simp [done?, PartialPath.done?_dotParts]
  | struct name ps =>
    obtain ⟨keyword, list, rfl, value, spellsList⟩ := List.map_eq_cons_iff.mp spells
    obtain ⟨ps', readsList, same⟩ := foldlM_params .struct spellsList
    exact ⟨keyword, list, heading .struct, fields name ps', .struct name ps', rfl, value ▸ rfl,
      readsList, rfl, by simp [Declared.bare, same]⟩
  | var name ty? =>
    obtain ⟨keyword, more, rfl, value, spellsMore⟩ := List.map_eq_cons_iff.mp spells
    obtain ⟨called, tail, rfl, valueCalled, spellsTail⟩ := List.map_eq_cons_iff.mp spellsMore
    have binds : [called].foldlM next? binding = some (bound name) := by
      simp [next?, valueCalled]
    have readsTail : tail.foldlM next? (bound name) = _ :=
      foldlM_annotation (typing name) (fun l value => by simp [next?, value])
        (fun p p' l next => by simp [next?, next]) spellsTail
    have reads := foldlM_append_some binds readsTail
    refine ⟨keyword, called :: tail, binding, _, .var name ty?, rfl, value ▸ rfl, reads, ?_, rfl⟩
    cases ty? with
    | none => rfl
    | some ty => simp [done?, PartialPath.done?_dotParts]

theorem next?_name {s : Stage} {d : Declared} (done : s.done? = some d) {l : Spanned Lexeme}
    {text : String} (name : l.value = .name text) : s.next? l = none := by
  have ends : ∀ {path : PartialPath} {ty : String}, path.done? = some ty →
      path.next? (.name text) = none := by
    intro path ty done
    obtain ⟨names, needsName⟩ := path
    cases needsName with
    | true => cases done
    | false => rfl
  cases s with
  | inModule path | returning _ _ path | typing _ path =>
    obtain ⟨ty, here, -⟩ := Option.map_eq_some_iff.mp done
    simp [next?, name, ends here]
  | heading | headed | listing | binding => cases done
  | signature | fields | bound => simp [next?, name]

end Stage

/-! ## Files -/

namespace Reading

theorem foldlM_open {s t : Stage} {toks : List (Spanned Lexeme)}
    (run : toks.foldlM Stage.next? s = some t) (finished : List Declaration) (span : Span) :
    ∃ span', toks.foldlM next? ⟨finished, some (s, span)⟩ =
      some ⟨finished, some (t, span')⟩ := by
  rw [← List.map_id toks] at run
  obtain ⟨_, reads, span', rfl⟩ := foldlM_follows next?
    (fun s r => ∃ span, r = ⟨finished, some (s, span)⟩) ⟨finished, some (s, span)⟩ run
    ⟨span, rfl⟩ (by
      rintro s t _ l ⟨span, rfl⟩ next
      have next : s.next? l = some t := next
      refine ⟨⟨finished, some (t, ⟨span.start, l.span.stop⟩)⟩, ?_, _, rfl⟩
      simp [next?, extend?, next])
  exact ⟨span', reads⟩

theorem foldlM_next {r : Reading} {finished : List Declaration} (done : r.done? = some finished)
    {d : Declared} {trailing : Bool} {toks : List (Spanned Lexeme)}
    (spells : toks.map Spanned.value = d.lexemes trailing) :
    ∃ r' d', toks.foldlM next? r = some r' ∧ r'.done? = some (finished ++ [d']) ∧
      d'.declared.bare = d.bare := by
  obtain ⟨keyword, rest, s, t, d', rfl, begins, reads, ends, same⟩ := Stage.foldlM_declared spells
  have keywordName : ∃ text, keyword.value = .name text := by
    unfold Stage.start? at begins
    split at begins
    all_goals first | exact ⟨_, ‹_›⟩ | cases begins
  obtain ⟨text, name⟩ := keywordName
  have closes : r.extend? keyword = none := by
    obtain ⟨before, current?⟩ := r
    cases current? with
    | none => rfl
    | some opened =>
      obtain ⟨stage, span⟩ := opened
      obtain ⟨last, here, -⟩ := Option.map_eq_some_iff.mp done
      simp [extend?, Stage.next?_name here name]
  have opens : r.next? keyword = some ⟨finished, some (s, keyword.span)⟩ := by
    simp [next?, closes, begin?, done, begins]
  obtain ⟨span, readsInside⟩ := foldlM_open reads finished keyword.span
  refine ⟨⟨finished, some (t, span)⟩, ⟨d', span⟩, ?_, ?_, same⟩
  · rw [List.foldlM_cons, opens]
    exact readsInside
  · simp [done?, ends]

theorem run_eq_ok_iff {r : Reading} {toks : List (Spanned Lexeme)} {ds : List Declaration} :
    r.run toks = .ok ds ↔ ∃ r', toks.foldlM next? r = some r' ∧ r'.done? = some ds := by
  induction toks generalizing r with
  | nil =>
    unfold run
    cases ended : r.done? <;> simp [ended]
  | cons l rest ih =>
    unfold run
    rw [List.foldlM_cons]
    cases r.next? l with
    | none => simp
    | some mid => exact ih

/-- Spelled declarations are read behind those that are finished. -/
theorem foldlM_spelled {ds : List Declaration} {toks : List (Spanned Lexeme)}
    (spells : Spelled ds (toks.map Spanned.value)) {r : Reading} {finished : List Declaration}
    (done : r.done? = some finished) :
    ∃ r' ds', toks.foldlM next? r = some r' ∧ r'.done? = some (finished ++ ds') ∧
      ds'.map Declaration.bare = ds.map Declaration.bare := by
  induction ds generalizing toks r finished with
  | nil =>
    generalize values : toks.map Spanned.value = ls at spells
    cases spells
    cases List.map_eq_nil_iff.mp values
    exact ⟨r, [], rfl, by simp [done], rfl⟩
  | cons d ds ih =>
    generalize values : toks.map Spanned.value = ls at spells
    cases spells with
    | cons trailing below =>
      obtain ⟨here, rest, rfl, spellsHere, spellsRest⟩ := List.map_eq_append_iff.mp values
      obtain ⟨mid, d', reads, doneHere, same⟩ := foldlM_next done spellsHere
      obtain ⟨r', ds', readsRest, doneRest, sameRest⟩ := ih (spellsRest ▸ below) doneHere
      refine ⟨r', d' :: ds', foldlM_append_some reads readsRest, by simp [doneRest], ?_⟩
      simp [Declaration.bare, same, sameRest]

end Reading

/-- Lexemes spell the same declarations in every way of taking them apart. -/
theorem Spelled.unique {ds ds' : List Declaration} {ls : List Lexeme} (h : Spelled ds ls)
    (h' : Spelled ds' ls) : ds.map Declaration.bare = ds'.map Declaration.bare := by
  obtain ⟨toks, rfl⟩ := Lexeme.exists_spanned ls
  obtain ⟨r, read, reads, done, same⟩ := Reading.foldlM_spelled h (r := .start) rfl
  obtain ⟨r', read', reads', done', same'⟩ := Reading.foldlM_spelled h' (r := .start) rfl
  cases reads.symm.trans reads'
  cases done.symm.trans done'
  rw [← same, ← same']

theorem readDeclarations_of_spelled {source : String} {lexemes : List (Spanned Lexeme)}
    (scanned : Lexeme.scan source = .ok lexemes) {ds : List Declaration}
    (spelled : Spelled ds ((meaningful lexemes).map Spanned.value)) :
    ∃ read, readDeclarations source = .ok read ∧
      read.map Declaration.bare = ds.map Declaration.bare := by
  obtain ⟨r, read, reads, done, same⟩ := Reading.foldlM_spelled spelled (r := .start) rfl
  have run := Reading.run_eq_ok_iff.mpr ⟨r, reads, done⟩
  exact ⟨read, (readDeclarations_eq_ok_iff scanned).mpr run, same⟩

/-- A source that can be scanned is read as declarations exactly if its lexemes without newlines and
comments spell them, and what they spell is unique but for the spans. -/
theorem readDeclarations_iff_spelled {source : String} {lexemes : List (Spanned Lexeme)}
    (scanned : Lexeme.scan source = .ok lexemes) (ds : List Declaration) :
    ((∃ read, readDeclarations source = .ok read ∧
        read.map Declaration.bare = ds.map Declaration.bare) ↔
      Spelled ds ((meaningful lexemes).map Spanned.value)) ∧
    ∀ ds', Spelled ds ((meaningful lexemes).map Spanned.value) →
      Spelled ds' ((meaningful lexemes).map Spanned.value) →
      ds.map Declaration.bare = ds'.map Declaration.bare := by
  refine ⟨⟨?_, ?_⟩, fun ds' spelled spelled' => spelled.unique spelled'⟩
  · rintro ⟨read, reads, same⟩
    have spelled := spelled_of_readDeclarations scanned reads
    rw [← spelled_bare_iff, same] at spelled
    exact spelled_bare_iff.mp spelled
  · exact readDeclarations_of_spelled scanned

/- The keyword `let` names a field here, and the list of fields ends in a comma. -/
theorem readDeclarations_iff_spelled_fields :
    ∃ read, readDeclarations "let a#\nstruct S(let: m.T = -1,)" = .ok read ∧
      read.map Declaration.bare =
        [⟨.var "a" none, .point 0⟩,
          ⟨.struct "S" [⟨"let", some "m.T", some (.number "-1"), .point 0⟩], .point 0⟩] := by
  let ds : List Declaration :=
    [⟨.var "a" none, .point 0⟩,
      ⟨.struct "S" [⟨"let", some "m.T", some (.number "-1"), .point 0⟩], .point 0⟩]
  obtain ⟨lexemes, scanned, values⟩ : ∃ lexemes,
      Lexeme.scan "let a#\nstruct S(let: m.T = -1,)" = .ok lexemes ∧
      (meaningful lexemes).map Spanned.value =
        (Declared.var "a" none).lexemes false ++
          (Declared.struct "S" [⟨"let", some "m.T", some (.number "-1"), .point 0⟩]).lexemes true :=
    ⟨_, Lexeme.scanFrom_eq_ok_iff.mpr
      (.lexeme rfl rfl (.blank rfl (.lexeme rfl rfl (.lexeme rfl rfl (.lexeme rfl rfl
      (.lexeme rfl rfl (.blank rfl (.lexeme rfl rfl (.lexeme rfl rfl (.lexeme rfl rfl
      (.lexeme rfl rfl (.blank rfl (.lexeme rfl rfl (.lexeme rfl rfl (.lexeme rfl rfl
      (.blank rfl (.lexeme rfl rfl (.blank rfl (.lexeme rfl rfl (.lexeme rfl rfl
      (.lexeme rfl rfl (.lexeme rfl rfl (.done _))))))))))))))))))))))), rfl⟩
  have spelled : Spelled ds ((meaningful lexemes).map Spanned.value) := by
    rw [values, ← List.append_nil (Declared.lexemes true _)]
    exact .cons false (.cons true .nil)
  exact ((readDeclarations_iff_spelled scanned ds).1).mpr spelled

end ExprCheck
