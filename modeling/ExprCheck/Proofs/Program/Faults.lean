import Mathlib.Data.List.Forall2
import ExprCheck.Program
import ExprCheck.Proofs.Declaration.Completion
import ExprCheck.Proofs.Prelude.Faults
import ExprCheck.Proofs.Token.Balance
/-! Where the failures of a source are reported. The scanner counts lines as it goes, the matching
of brackets counts the line feeds among lexemes, the reader of declarations looks lines up, and a
fault of a prelude gets its line afterwards. Main statement: they all agree. -/
namespace ExprCheck

structure Place.Fits (source : String) (p : Place) : Prop where
  inside : p.span.EndsBy source.utf8ByteSize
  line : p.line = lineOf source p.span.start

variable {source : String}

/-! ## Scanning -/

theorem lineOf_byteLength {passed rest : List Char} (whole : source.toList = passed ++ rest) :
    lineOf source (byteLength passed) = passed.count '\n' + 1 := by
  rw [lineOf, whole, feedsBefore_byteLength]

/-- The line that is counted along is that of the offset, so a fault lies on its line. -/
theorem Lexeme.fits_of_scanFrom {passed cs : List Char} {line : Nat} {e : LexError}
    (whole : source.toList = passed ++ cs) (counted : line = passed.count '\n' + 1)
    (fails : scanFrom (byteLength passed) line cs = .error e) : e.place.Fits source := by
  generalize start : byteLength passed = offset at fails
  fun_induction scanFrom offset line cs generalizing passed with
  | case1 => cases fails
  | case2 offset line first cs skipped ih =>
    have other : first ≠ '\n' := by
      rintro rfl
      cases skipped
    have parts : source.toList = passed ++ [first] ++ cs := by simp [whole]
    refine ih parts ?_ ?_ fails
    · rw [counted, List.count_append, List.count_singleton, if_neg (by simpa using other)]
    · rw [byteLength_append, start]
      rfl
  | case3 => cases fails
  | case4 offset line first cs kept make more starts text stop lexeme line' e' below =>
    rename_i ih
    have parts : source.toList = passed ++ text ++ cs.drop more := by
      rw [whole, List.append_assoc, List.cons_append, List.take_append_drop]
    refine ih parts ?_ (by rw [byteLength_append, start]) (fails ▸ below)
    -- Only a lexeme that is a line feed holds one.
    have feeds : text.count '\n' = if lexeme = newline then 1 else 0 :=
      feeds_of_start starts (String.ofList text)
    have next : line' = line + if lexeme = newline then 1 else 0 := by
      simp only [line']
      split <;> rfl
    rw [next, counted, List.count_append, feeds, Nat.add_right_comm]
  | case5 offset line first cs kept more =>
    cases fails
    let text := first :: cs.take more
    have parts : source.toList = passed ++ text ++ cs.drop more := by
      rw [whole, List.append_assoc, List.cons_append, List.take_append_drop]
    have marks : Span.Marks ⟨offset, offset + byteLength text⟩ source text :=
      ⟨passed, cs.drop more, parts, by rw [byteLength_append, start]⟩
    refine ⟨⟨Nat.le_add_right _ _, marks.inside⟩, ?_⟩
    rw [counted, ← lineOf_byteLength whole, start]

theorem Lexeme.fits_of_scan {e : LexError} (fails : scan source = .error e) :
    e.place.Fits source := by
  have fails : scanFrom (byteLength []) 1 source.toList = .error e := fails
  exact fits_of_scanFrom rfl rfl fails

/-! ## Matching brackets -/

theorem LaidOut.lineBehind {ls before after : List (Spanned Lexeme)} {l : Spanned Lexeme}
    (h : LaidOut source ls) (cut : ls = before ++ l :: after) :
    lineBehind 1 before = lineOf source l.span.start := by
  rw [h.line before l after cut, Nat.add_comm]
  rfl

theorem fits_of_matchBrackets {ls : List (Spanned Lexeme)} {eof : Nat} {e : LexError}
    (laidOut : LaidOut source ls) (inside : ∀ l ∈ ls, l.span.stop ≤ source.utf8ByteSize)
    (fails : matchBrackets ls eof = .error e) : e.place.Fits source := by
  have fits {before after : List (Spanned Lexeme)} {l : Spanned Lexeme}
      (cut : ls = before ++ l :: after) :
      Place.Fits source ⟨l.span, lineBehind 1 before⟩ := by
    have mem : l ∈ ls := by simp [cut]
    exact ⟨⟨Nat.le_of_lt (laidOut.wide l mem), inside l mem⟩, laidOut.lineBehind cut⟩
  by_cases completable : Balanceable (ls.map Spanned.value)
  · by_cases balanced : Balanced (ls.map Spanned.value)
    · obtain ⟨ts, accepted⟩ := exists_matchBrackets balanced eof
      cases fails.symm.trans accepted
    · obtain ⟨before, bracket, span, after, cut, -, -, same⟩ :=
        matchBrackets_eq_unclosed completable balanced eof
      cases fails.symm.trans same
      exact fits cut
  · obtain ⟨before, l, first⟩ := exists_firstUnreadable completable
    obtain ⟨g, e', run, step, same⟩ := first.matchBrackets_eq eof
    cases fails.symm.trans same
    obtain ⟨after, cut⟩ := first.here
    have place : e.place = ⟨l.span, g.line⟩ := by
      obtain ⟨found, -, ⟨-, rfl⟩ | ⟨expected, place, rest, -, -, rfl⟩⟩ :=
        Grouping.step_eq_error step <;> rfl
    rw [place, (Grouping.opens_of_run run).2]
    exact fits (cut.symm.trans (List.append_assoc ..))

theorem tokenize_eq_error {e : LexError} (fails : tokenize source = .error e) :
    Lexeme.scan source = .error e ∨
      ∃ ls, Lexeme.scan source = .ok ls ∧ matchBrackets ls source.utf8ByteSize = .error e := by
  unfold tokenize at fails
  cases scanned : Lexeme.scan source with
  | error fault =>
    rw [scanned] at fails
    cases fails
    exact .inl rfl
  | ok ls =>
    rw [scanned] at fails
    exact .inr ⟨ls, rfl, fails⟩

theorem fits_of_tokenize {e : LexError} (fails : tokenize source = .error e) :
    e.place.Fits source := by
  rcases tokenize_eq_error fails with scanning | ⟨ls, scanned, matching⟩
  · exact Lexeme.fits_of_scan scanning
  · exact fits_of_matchBrackets (laidOut_of_scan scanned) (inside_of_scan scanned) matching

/-! ## Declarations -/

theorem fits_of_readDeclarations {e : DeclarationError}
    (fails : readDeclarations source = .error e) : e.place.Fits source := by
  unfold readDeclarations at fails
  cases scanned : Lexeme.scan source with
  | error fault =>
    simp only [scanned] at fails
    cases fails
    exact Lexeme.fits_of_scan scanned
  | ok lexemes =>
    simp only [scanned] at fails
    change (Reading.start.run (meaningful lexemes)).mapError _ = _ at fails
    cases run : Reading.start.run (meaningful lexemes) with
    | ok ds =>
      rw [run] at fails
      cases fails
    | error stuck =>
      rw [run] at fails
      cases fails
      rcases Reading.of_run_eq_error run with
        ⟨before, l, after, mid, cut, rfl, -⟩ | ⟨mid, rfl, -⟩
      · have mem : l ∈ lexemes := by
          apply List.mem_of_mem_filter (p := fun l => !l.value.isTrivia)
          change l ∈ meaningful lexemes
          simp [cut]
        have wide := (laidOut_of_scan scanned).wide l mem
        exact ⟨⟨Nat.le_of_lt wide, inside_of_scan scanned l mem⟩, rfl⟩
      · exact ⟨⟨Nat.le_refl _, Nat.le_refl _⟩, rfl⟩

/-! ## Failures -/

/-- The errors that a failure holds, each with its message and with where it lies. -/
def Failure.errors : Failure → List (Spanned String)
  | lexical e => [⟨e.message, e.place.span⟩]
  | declarations es => es.map fun e => ⟨e.message, e.place.span⟩
  | semantics fs => fs.map fun f => ⟨f.fault.message, f.span⟩
  | unreadable _ => []

/-- The diagnostic tells of the error, with the file, and the line that the error starts on. -/
structure Diagnostic.Locates (source path : String) (e : Spanned String) (d : Diagnostic) :
    Prop where
  level : d.level = .error
  message : d.message = e.value
  file : d.file? = some path
  span : d.span? = some e.span
  inside : e.span.EndsBy source.utf8ByteSize
  line : d.line? = some (lineOf source e.span.start)

theorem Place.Fits.locates {place : Place} (fits : place.Fits source) (message path : String) :
    (((Failure.located message place).withLine (some source)).withFile (some path)).Locates source
      path ⟨message, place.span⟩ :=
  ⟨rfl, rfl, rfl, rfl, fits.inside, congrArg some fits.line⟩

theorem SpannedFault.locates {f : SpannedFault} (inside : f.span.EndsBy source.utf8ByteSize)
    (path : String) : ((f.diagnostic.withLine (some source)).withFile (some path)).Locates source
      path ⟨f.fault.message, f.span⟩ :=
  ⟨rfl, rfl, rfl, rfl, inside, rfl⟩

theorem readPrelude_eq_error {failure : Failure} (fails : readPrelude source = .error failure) :
    (∃ e, readDeclarations source = .error e ∧ failure = .declarations [e]) ∨
      ∃ ds faults, readDeclarations source = .ok ds ∧
        ScopeTable.ofDeclarations ds = .error faults ∧ failure = .semantics faults := by
  unfold readPrelude at fails
  cases read : readDeclarations source with
  | error e =>
    simp only [read] at fails
    cases fails
    exact .inl ⟨e, rfl, rfl⟩
  | ok ds =>
    simp only [read] at fails
    cases resolved : ScopeTable.ofDeclarations ds with
    | ok table =>
      rw [resolved] at fails
      cases fails
    | error faults =>
      rw [resolved] at fails
      cases fails
      exact .inr ⟨ds, faults, rfl, resolved, rfl⟩

theorem Analyzer.tokenize_of_analyzeLines_eq_error {a : Analyzer} {e : LexError}
    (fails : a.analyzeLines source = .error e) : tokenize source = .error e := by
  unfold analyzeLines at fails
  cases read : tokenize source with
  | ok ts =>
    rw [read] at fails
    cases fails
  | error fault =>
    rw [read] at fails
    cases fails
    rfl

/-- A prelude or a source that fails has one diagnostic for each error, in their order. Each has the
file, a span in the source and the line that this starts on, whether the error is one of the
characters, of the brackets, of the declarations or of what they mean. -/
theorem errors_located (source path : String) (failure : Failure)
    (fails : readPrelude source = .error failure ∨
      ∃ a e, Analyzer.analyzeLines a source = .error e ∧ failure = .lexical e) :
    List.Forall₂ (Diagnostic.Locates source path) failure.errors
      (failure.diagnostics (some path) (some source)) := by
  rcases fails with prelude | ⟨a, e, analysis, rfl⟩
  · rcases readPrelude_eq_error prelude with ⟨e, read, rfl⟩ | ⟨ds, faults, read, resolved, rfl⟩
    · exact .cons ((fits_of_readDeclarations read).locates e.message path) .nil
    · simp only [Failure.errors, Failure.diagnostics, Failure.bareDiagnostics,
        List.forall₂_map_left_iff, List.forall₂_map_right_iff, List.forall₂_same]
      intro f mem
      obtain ⟨d, among, own⟩ := ScopeTable.spans_of_ofDeclarations resolved f mem
      exact SpannedFault.locates (inside_of_readDeclarations read d among f.span own) path
  · have fits := fits_of_tokenize (Analyzer.tokenize_of_analyzeLines_eq_error analysis)
    exact .cons (fits.locates e.message path) .nil

/- The fault of a parameter and that of a declaration behind it, which lies on a line of its own. -/
theorem errors_located_secondLine :
    ∃ first second,
      readPrelude "fn f(a: b)\nlet f" = .error (.semantics [first, second]) ∧
      first.span = ⟨5, 9⟩ ∧ second.span = ⟨11, 16⟩ ∧
      List.Forall₂ (Diagnostic.Locates "fn f(a: b)\nlet f" "p")
        (Failure.semantics [first, second]).errors
        ((Failure.semantics [first, second]).diagnostics (some "p")
          (some "fn f(a: b)\nlet f")) := by
  have fails : readPrelude "fn f(a: b)\nlet f" = .error (.semantics
      [⟨.unknownType "b", ⟨5, 9⟩⟩, ⟨.duplicate "f" ⟨0, 10⟩, ⟨11, 16⟩⟩]) := by
    with_unfolding_all rfl
  exact ⟨_, _, fails, rfl, rfl, errors_located _ _ _ (.inl fails)⟩

end ExprCheck
