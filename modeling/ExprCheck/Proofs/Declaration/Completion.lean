import ExprCheck.Program
import ExprCheck.Proofs.Declaration.Reading
import ExprCheck.Proofs.Lexeme.Alone
/-! Where a declaration file goes wrong. Every state of the reader can be completed: a few lexemes
take it to where a file could end. So the lexemes in front of a fault are the start of a file that
is read without one, and with the lexeme at fault they are not. Main statement: a source that is
scanned and not read has one fault, at the first lexeme that no file has there, or at the end if a
file goes on from there. -/
namespace ExprCheck

def PartialPath.completion (p : PartialPath) : List Lexeme :=
  if p.needsName then [.name "a"] else []

def ParamStage.completion : ParamStage → List Lexeme
  | named | defaulted .. => []
  | typing path => path.completion
  | defaulting .. => [.number "0"]

def PartialParams.completion (ps : PartialParams) : List Lexeme :=
  ps.current?.elim [] (·.stage.completion)

/-- The lexemes that take the stage to where its declaration could end. -/
def Stage.completion : Stage → List Lexeme
  | inModule path | returning _ _ path | typing _ path => path.completion
  | heading _ => [.name "a", .opening .paren, .closing .paren]
  | headed .. => [.opening .paren, .closing .paren]
  | listing _ _ params => params.completion ++ [.closing .paren]
  | binding => [.name "a"]
  | signature .. | fields .. | bound _ => []

def Reading.completion (r : Reading) : List Lexeme :=
  r.current?.elim [] (·.1.completion)

theorem PartialPath.completes (p : PartialPath) :
    ∃ names, p.completion.foldlM next? p = some ⟨names, false⟩ := by
  obtain ⟨names, needsName⟩ := p
  cases needsName with
  | true => exact ⟨_, rfl⟩
  | false => exact ⟨_, rfl⟩

theorem ParamStage.completes (s : ParamStage) : ∃ t, s.completion.foldlM next? s = some t ∧
    ∀ name span, ∃ param, PartialParam.done? ⟨name, t, span⟩ = some param := by
  cases s with
  | named => exact ⟨named, rfl, fun name span => ⟨_, rfl⟩⟩
  | defaulted ty? value => exact ⟨defaulted ty? value, rfl, fun name span => ⟨_, rfl⟩⟩
  | typing path =>
    obtain ⟨names, reads⟩ := path.completes
    rw [← List.map_id path.completion] at reads
    exact ⟨_, foldlM_inside (fun _ _ _ next => next?_typing next) reads, fun name span => ⟨_, rfl⟩⟩
  | defaulting ty? negative =>
    cases negative with
    | true => exact ⟨_, rfl, fun name span => ⟨_, rfl⟩⟩
    | false => exact ⟨_, rfl, fun name span => ⟨_, rfl⟩⟩

theorem PartialParams.completes (ps : PartialParams) {toks : List (Spanned Lexeme)}
    (spells : toks.map Spanned.value = ps.completion) :
    ∃ t params, toks.foldlM next? ps = some t ∧ t.done? = some params := by
  obtain ⟨finished, current?⟩ := ps
  cases current? with
  | none =>
    cases List.map_eq_nil_iff.mp spells
    exact ⟨_, _, rfl, rfl⟩
  | some q =>
    obtain ⟨t, reads, ends⟩ := q.stage.completes
    have spelled : toks.map Spanned.value = q.stage.completion := spells
    rw [← spelled] at reads
    obtain ⟨span, readsInside⟩ := foldlM_stage reads finished
    obtain ⟨param, done⟩ := ends q.name span
    exact ⟨_, finished ++ [param], readsInside, by simp [done?, done]⟩

namespace Stage

theorem completes_path {wrap : PartialPath → Stage}
    (hands : ∀ p p' (l : Spanned Lexeme), p.next? l.value = some p' →
      (wrap p).next? l = some (wrap p'))
    (ends : ∀ names, ∃ d, (wrap ⟨names, false⟩).done? = some d) (path : PartialPath)
    {toks : List (Spanned Lexeme)} (spells : toks.map Spanned.value = path.completion) :
    ∃ t d, toks.foldlM next? (wrap path) = some t ∧ t.done? = some d := by
  obtain ⟨names, reads⟩ := path.completes
  rw [← spells] at reads
  obtain ⟨d, done⟩ := ends names
  exact ⟨_, d, foldlM_inside hands reads, done⟩

theorem completes_listing (kind : Listed) (name : String) (params : PartialParams)
    {toks : List (Spanned Lexeme)}
    (spells : toks.map Spanned.value = params.completion ++ [.closing .paren]) :
    ∃ t d, toks.foldlM next? (listing kind name params) = some t ∧ t.done? = some d := by
  obtain ⟨inner, last, rfl, spellsInner, spellsLast⟩ := List.map_eq_append_iff.mp spells
  obtain ⟨l, none, rfl, value, nothing⟩ := List.map_eq_cons_iff.mp spellsLast
  cases List.map_eq_nil_iff.mp nothing
  obtain ⟨q, ps, reads, done⟩ := params.completes spellsInner
  have closes : [l].foldlM next? (listing kind name q) = some (listed name ps kind) := by
    simp [next?_closing kind name done value]
  have whole := foldlM_append_some (foldlM_listing kind name reads) closes
  cases kind with
  | function => exact ⟨_, _, whole, rfl⟩
  | struct => exact ⟨_, _, whole, rfl⟩

/-- Every stage is taken by its completion to where its declaration could end. -/
theorem completes (s : Stage) {toks : List (Spanned Lexeme)}
    (spells : toks.map Spanned.value = s.completion) :
    ∃ t d, toks.foldlM next? s = some t ∧ t.done? = some d := by
  cases s with
  | inModule path | returning name params path | typing name path =>
    exact completes_path (fun p p' l next => by simp [next?, next]) (fun names => ⟨_, rfl⟩) path
      spells
  | listing kind name params => exact completes_listing kind name params spells
  | headed kind name =>
    obtain ⟨opening, rest, rfl, value, spellsRest⟩ := List.map_eq_cons_iff.mp spells
    obtain ⟨t, d, reads, done⟩ := completes_listing kind name .start spellsRest
    refine ⟨t, d, ?_, done⟩
    simpa [next?, value] using reads
  | heading kind =>
    obtain ⟨called, more, rfl, named, spellsMore⟩ := List.map_eq_cons_iff.mp spells
    obtain ⟨opening, rest, rfl, value, spellsRest⟩ := List.map_eq_cons_iff.mp spellsMore
    obtain ⟨t, d, reads, done⟩ := completes_listing kind "a" .start spellsRest
    refine ⟨t, d, ?_, done⟩
    simpa [next?, named, value] using reads
  | binding =>
    obtain ⟨called, rest, rfl, named, nothing⟩ := List.map_eq_cons_iff.mp spells
    cases List.map_eq_nil_iff.mp nothing
    exact ⟨bound "a", _, by simp [next?, named], rfl⟩
  | signature name params | fields name params | bound name =>
    cases List.map_eq_nil_iff.mp spells
    exact ⟨_, _, rfl, rfl⟩

end Stage

theorem Reading.completes (r : Reading) {toks : List (Spanned Lexeme)}
    (spells : toks.map Spanned.value = r.completion) :
    ∃ t ds, toks.foldlM next? r = some t ∧ t.done? = some ds := by
  obtain ⟨finished, current?⟩ := r
  cases current? with
  | none =>
    cases List.map_eq_nil_iff.mp spells
    exact ⟨_, _, rfl, rfl⟩
  | some opened =>
    obtain ⟨stage, span⟩ := opened
    obtain ⟨t, d, reads, done⟩ := stage.completes spells
    obtain ⟨span', readsInside⟩ := foldlM_open reads finished span
    exact ⟨_, finished ++ [⟨d, span'⟩], readsInside, by simp [done?, done]⟩

/-- A lexeme that is written by itself and means something to a declaration. -/
structure Lexeme.Word (l : Lexeme) : Prop where
  alone : l.Alone
  meant : l.isTrivia = false

/-- The lexemes that completions are made of. -/
def fillers : List Lexeme :=
  [.name "a", .number "0", .opening .paren, .closing .paren]

theorem word_of_mem_fillers {l : Lexeme} (mem : l ∈ fillers) : l.Word := by
  simp only [fillers, List.mem_cons, List.not_mem_nil, or_false] at mem
  rcases mem with rfl | rfl | rfl | rfl
  · exact ⟨⟨'a', [], .name, rfl, rfl, by decide, rfl, rfl⟩, rfl⟩
  · exact ⟨⟨'0', [], .number, rfl, rfl, by decide, rfl, rfl⟩, rfl⟩
  · exact ⟨⟨'(', [], _, rfl, rfl, by decide, rfl, rfl⟩, rfl⟩
  · exact ⟨⟨')', [], _, rfl, rfl, by decide, rfl, rfl⟩, rfl⟩

theorem PartialPath.completion_subset (p : PartialPath) : p.completion ⊆ fillers := by
  unfold completion
  split <;> simp [fillers]

theorem ParamStage.completion_subset (s : ParamStage) : s.completion ⊆ fillers := by
  cases s with
  | typing path => exact path.completion_subset
  | named | defaulted | defaulting => simp [completion, fillers]

theorem PartialParams.completion_subset (ps : PartialParams) : ps.completion ⊆ fillers := by
  obtain ⟨finished, current?⟩ := ps
  cases current? with
  | none => exact List.nil_subset fillers
  | some q => exact q.stage.completion_subset

theorem Stage.completion_subset (s : Stage) : s.completion ⊆ fillers := by
  cases s with
  | inModule path | returning name params path | typing name path => exact path.completion_subset
  | listing kind name params =>
    apply List.append_subset.mpr
    exact ⟨params.completion_subset, by simp [fillers]⟩
  | _ => simp [completion, fillers]

theorem Reading.completion_subset (r : Reading) : r.completion ⊆ fillers := by
  obtain ⟨finished, current?⟩ := r
  cases current? with
  | none => exact List.nil_subset fillers
  | some opened => exact opened.1.completion_subset

theorem exists_source {values : List Lexeme} (words : ∀ l ∈ values, l.Word) :
    ∃ source lexemes, Lexeme.scan source = .ok lexemes ∧
      (meaningful lexemes).map Spanned.value = values := by
  have text : ∃ cs, Lexeme.Reads cs values := by
    induction values with
    | nil => exact ⟨[], .nothing⟩
    | cons l rest ih =>
      obtain ⟨here, later⟩ := List.forall_mem_cons.mp words
      obtain ⟨cs, reads⟩ := ih later
      have space : ' ' ∈ Lexeme.stops := by decide
      exact ⟨_, reads.blank.alone here.alone (Lexeme.atStop_cons space cs)⟩
  obtain ⟨cs, reads⟩ := text
  obtain ⟨lexemes, scanned, spelled⟩ := reads 0
  have meant : meaningful lexemes = lexemes := by
    apply List.filter_eq_self.mpr
    intro l mem
    have word := words l.value (spelled ▸ List.mem_map_of_mem mem)
    simp [word.meant]
  refine ⟨String.ofList cs, lexemes, ?_, by rw [meant, spelled]⟩
  apply Lexeme.scanFrom_eq_ok_iff.mpr
  rwa [String.toList_ofList]

theorem words_of_scan {source : String} {lexemes : List (Spanned Lexeme)}
    (scanned : Lexeme.scan source = .ok lexemes) : ∀ l ∈ meaningful lexemes, l.value.Word := by
  intro l mem
  obtain ⟨read, meant⟩ := List.mem_filter.mp mem
  have meant : l.value.isTrivia = false := by simpa using meant
  rcases (Lexeme.scanFrom_eq_ok_iff.mp scanned).alone l read with feed | ⟨text, comment⟩ | alone
  · rw [feed] at meant
    cases meant
  · rw [comment] at meant
    cases meant
  · exact ⟨alone, meant⟩

/-- The lexemes are those of a source that is read, without its line feeds and comments. -/
def IsFile (ls : List Lexeme) : Prop :=
  ∃ source lexemes ds, Lexeme.scan source = .ok lexemes ∧ readDeclarations source = .ok ds ∧
    (meaningful lexemes).map Spanned.value = ls

/-- Words are a file exactly if the reader takes them to where a file could end. -/
theorem isFile_iff {toks : List (Spanned Lexeme)} (words : ∀ l ∈ toks, l.value.Word) :
    IsFile (toks.map Spanned.value) ↔
      ∃ r ds, toks.foldlM Reading.next? .start = some r ∧ r.done? = some ds := by
  constructor
  · rintro ⟨source, lexemes, ds, scanned, read, spelled⟩
    have spells := spelled_of_readDeclarations scanned read
    rw [spelled] at spells
    obtain ⟨r, ds', reads, done, -⟩ := Reading.foldlM_spelled spells (r := .start) rfl
    exact ⟨r, _, reads, done⟩
  · rintro ⟨r, ds, reads, done⟩
    have written : ∀ value ∈ toks.map Spanned.value, value.Word := by simpa using words
    obtain ⟨source, lexemes, scanned, spelled⟩ := exists_source written
    -- What a spelling needs of the words holds of them in the source that they are written to.
    have texts : ∀ l ∈ toks, l.value.IsScanned := by
      intro l mem
      have value : l.value ∈ (meaningful lexemes).map Spanned.value :=
        spelled ▸ List.mem_map_of_mem mem
      obtain ⟨l', mem', same⟩ := List.mem_map.mp value
      rw [← same]
      exact Lexeme.isScanned_of_scan scanned l' (List.mem_filter.mp mem').1
    have start : Reading.start.Takes [] := ⟨[], [], rfl, .nil, rfl⟩
    have spells : Spelled ds (toks.map Spanned.value) :=
      start.run texts (Reading.run_eq_ok_iff.mpr ⟨r, reads, done⟩)
    rw [← spelled] at spells
    obtain ⟨read, reads, -⟩ := readDeclarations_of_spelled scanned spells
    exact ⟨source, lexemes, read, scanned, reads, spelled⟩

/-- The lexemes are the start of a file. -/
def Viable (ls : List Lexeme) : Prop :=
  ∃ more, IsFile (ls ++ more)

theorem isFile_completion {toks : List (Spanned Lexeme)} (words : ∀ l ∈ toks, l.value.Word)
    {r : Reading} (reads : toks.foldlM Reading.next? .start = some r) :
    IsFile (toks.map Spanned.value ++ r.completion) := by
  obtain ⟨more, spells⟩ := Lexeme.exists_spanned r.completion
  obtain ⟨t, ds, readsMore, done⟩ := r.completes spells
  have wordsMore : ∀ l ∈ more, l.value.Word := by
    intro l mem
    exact word_of_mem_fillers (r.completion_subset (spells ▸ List.mem_map_of_mem mem))
  have file := (isFile_iff (List.forall_mem_append.mpr ⟨words, wordsMore⟩)).mpr
    ⟨t, ds, foldlM_append_some reads readsMore, done⟩
  rwa [List.map_append, spells] at file

theorem exists_reading_of_viable {toks : List (Spanned Lexeme)}
    (viable : Viable (toks.map Spanned.value)) :
    ∃ r, toks.foldlM Reading.next? .start = some r := by
  obtain ⟨more, source, lexemes, ds, scanned, read, spelled⟩ := viable
  have spells := spelled_of_readDeclarations scanned read
  obtain ⟨rest, rfl⟩ := Lexeme.exists_spanned more
  rw [spelled, ← List.map_append] at spells
  obtain ⟨r, ds', reads, -⟩ := Reading.foldlM_spelled spells (r := .start) rfl
  rw [List.foldlM_append] at reads
  obtain ⟨mid, first, -⟩ := Option.bind_eq_some_iff.mp reads
  exact ⟨mid, first⟩

theorem Reading.of_run_eq_error {r : Reading} {toks : List (Spanned Lexeme)} {stuck : Stuck}
    (fails : r.run toks = .error stuck) :
    (∃ before l after mid, toks = before ++ l :: after ∧ stuck = .at l ∧
      before.foldlM next? r = some mid ∧ mid.next? l = none) ∨
    ∃ mid, stuck = .atEnd ∧ toks.foldlM next? r = some mid ∧ mid.done? = none := by
  induction toks generalizing r with
  | nil =>
    unfold run at fails
    split at fails
    · cases fails
    · rename_i unfinished
      cases fails
      exact .inr ⟨r, rfl, rfl, unfinished⟩
  | cons l rest ih =>
    unfold run at fails
    split at fails
    · rename_i next taken
      rcases ih fails with
        ⟨before, found, after, mid, rfl, same, reads, none⟩ | ⟨mid, same, reads, unfinished⟩
      · refine .inl ⟨l :: before, found, after, mid, rfl, same, ?_, none⟩
        rw [List.foldlM_cons, taken]
        exact reads
      · refine .inr ⟨mid, same, ?_, unfinished⟩
        rw [List.foldlM_cons, taken]
        exact reads
    · rename_i none
      cases fails
      exact .inl ⟨[], l, rest, r, rfl, rfl, rfl, none⟩

/-- A source that is scanned and not read as declarations has exactly one fault. If it names a
lexeme, what stands before that is the start of a file and is none together with it; if it is at the
end, a file goes on behind the lexemes. -/
theorem readDeclarations_fails_at_first_impossible {source : String}
    {lexemes : List (Spanned Lexeme)} (scanned : Lexeme.scan source = .ok lexemes)
    (fails : ∀ ds, readDeclarations source ≠ .ok ds) :
    ∃ e, readPrelude source = .error (.declarations [e]) ∧ readDeclarations source = .error e ∧
      ((∃ before l after, meaningful lexemes = before ++ l :: after ∧
          e = .unexpected l.value ⟨l.span, lineOf source l.span.start⟩ ∧
          Viable (before.map Spanned.value) ∧ ¬Viable ((before ++ [l]).map Spanned.value)) ∨
        (e = .unexpectedEnd
            ⟨.point source.utf8ByteSize, lineOf source source.utf8ByteSize⟩ ∧
          ∃ more, more ≠ [] ∧ IsFile ((meaningful lexemes).map Spanned.value ++ more))) := by
  have words := words_of_scan scanned
  cases run : Reading.start.run (meaningful lexemes) with
  | ok ds => exact absurd ((readDeclarations_eq_ok_iff scanned).mpr run) (fails ds)
  | error stuck =>
    have read : readDeclarations source = .error (.ofStuck source stuck) := by
      unfold readDeclarations
      unfold meaningful at run
      simp only [scanned, run]
      rfl
    refine ⟨_, by simp [readPrelude, read], read, ?_⟩
    rcases Reading.of_run_eq_error run with
      ⟨before, l, after, mid, cut, rfl, reads, none⟩ | ⟨mid, rfl, reads, unfinished⟩
    · have front : ∀ l ∈ before, l.value.Word := by
        intro l mem
        apply words
        simp [cut, mem]
      refine .inl ⟨before, l, after, cut, rfl, ⟨_, isFile_completion front reads⟩, ?_⟩
      -- What starts a file is taken by the reader, which was stuck at `l`.
      intro viable
      obtain ⟨r, longer⟩ := exists_reading_of_viable viable
      simp [List.foldlM_append, reads, none] at longer
    · refine .inr ⟨rfl, mid.completion, ?_, isFile_completion words reads⟩
      -- With nothing to add, the last declaration would be finished.
      intro nothing
      have spells : ([] : List (Spanned Lexeme)).map Spanned.value = mid.completion := nothing.symm
      obtain ⟨t, ds, stays, done⟩ := mid.completes spells
      cases stays
      rw [unfinished] at done
      cases done

/- A comma may end the parameter list, but no second one stands behind it. -/
theorem readDeclarations_fails_at_second_comma :
    ∃ lexemes before l after, Lexeme.scan "fn f(a,,)" = .ok lexemes ∧
      (∀ ds, readDeclarations "fn f(a,,)" ≠ .ok ds) ∧ meaningful lexemes = before ++ l :: after ∧
      l.value = .comma ∧ l.span = ⟨7, 8⟩ ∧ Viable (before.map Spanned.value) ∧
      ¬Viable ((before ++ [l]).map Spanned.value) := by
  obtain ⟨lexemes, scanned⟩ : ∃ lexemes, Lexeme.scan "fn f(a,,)" = .ok lexemes :=
    ⟨_, by with_unfolding_all rfl⟩
  have fault : readDeclarations "fn f(a,,)" = .error (.unexpected .comma ⟨⟨7, 8⟩, 1⟩) := by
    with_unfolding_all rfl
  have fails : ∀ ds, readDeclarations "fn f(a,,)" ≠ .ok ds := by
    intro ds read
    rw [fault] at read
    cases read
  obtain ⟨e, -, read, ⟨before, l, after, cut, rfl, viable, not⟩ | ⟨rfl, -⟩⟩ :=
    readDeclarations_fails_at_first_impossible scanned fails
  · have same := Except.error.inj (fault.symm.trans read)
    obtain ⟨value, place⟩ := DeclarationError.unexpected.inj same
    have span := (Place.mk.inj place).1
    exact ⟨lexemes, before, l, after, scanned, fails, cut, value.symm, span.symm, viable, not⟩
  · cases fault.symm.trans read

end ExprCheck
