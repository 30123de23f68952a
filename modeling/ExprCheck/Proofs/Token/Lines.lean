import ExprCheck.Proofs.Lexeme.Feed
import ExprCheck.Proofs.Token.Relocation
/-! The tokens of two texts with a line feed between them. If all brackets of the first text are
closed, its line feeds have been counted and nothing is left open where the second one starts. So
its lines follow those of the first text, with every place moved. -/
namespace ExprCheck

variable (d : Shift)

abbrev Token.moved (t : Token) : Token :=
  t.mapPlaces (Place.moved d)

/-! ## Reading -/

theorem Level.finish_moved (l : Level) :
    (l.relocated d.relocation).finish = l.finish.map (Token.moved d) :=
  l.relocated_finish d.relocation

namespace Grouping

/-- The state in a text that stands behind another; the tokens of that one are in the output. -/
def behind (earlier : List Token) (g : Grouping) : Grouping :=
  ⟨g.top.relocated d.relocation, g.pending.map (Pending.relocated d.relocation),
    earlier ++ g.output.map (Token.moved d), d.lines + g.line⟩

theorem behind_eq_relocated (earlier : List Token) (g : Grouping) :
    g.behind d earlier =
      g.relocated d.relocation .empty (earlier ++ g.output.map (Token.moved d)) := by
  rw [relocated, Level.empty_follow]
  rfl

theorem behind_flush (earlier : List Token) (g : Grouping) :
    (g.behind d earlier).flush = g.flush.behind d earlier := by
  simp [flush, behind, Level.finish_moved]

theorem behind_newline (earlier : List Token) (g : Grouping) (span : Span) :
    (g.behind d earlier).newline (span.moved d) = (g.newline span).behind d earlier := by
  obtain ⟨top, pending, output, line⟩ := g
  cases pending with
  | nil =>
    simp [newline, behind, flush, Level.finish_moved, Token.mapPlaces, Place.moved, Nat.add_assoc]
  | cons p rest => simp [newline, behind, Nat.add_assoc]

theorem behind_step {earlier : List Token} {g g' : Grouping} {l : Spanned Lexeme}
    (read : g.step l = .ok g') :
    (g.behind d earlier).step (l.moved d) = .ok (g'.behind d earlier) := by
  by_cases feed : l.value = .newline
  · obtain ⟨value, span⟩ := l
    cases feed
    cases read
    exact congrArg Except.ok (behind_newline d earlier g span)
  · have same : g'.output = g.output := output_step feed (step_eq_ok_iff.mp read)
    rw [behind_eq_relocated, behind_eq_relocated, same]
    exact relocated_step d.relocation .empty _ feed read

/-- A whole text is read behind another as it is read alone. -/
theorem behind_run {earlier : List Token} {g g' : Grouping} {ls : List (Spanned Lexeme)}
    (read : ls.foldlM step g = .ok g') :
    (ls.map (Spanned.moved d)).foldlM step (g.behind d earlier) = .ok (g'.behind d earlier) := by
  induction ls generalizing g with
  | nil =>
    cases read
    rfl
  | cons l rest ih =>
    rw [List.foldlM_cons] at read
    obtain ⟨mid, first, below⟩ := bind_eq_ok_iff.mp read
    rw [List.map_cons, List.foldlM_cons, behind_step d first]
    exact ih below

theorem line_mapLevel (g : Grouping) (change : Level → Level) :
    (g.mapLevel change).line = g.line := by
  unfold mapLevel
  split <;> rfl

theorem line_step {g g' : Grouping} {l : Spanned Lexeme} (read : g.step l = .ok g') :
    g'.line = g.line + if l.value = .newline then 1 else 0 := by
  obtain ⟨value, span⟩ := l
  cases value with
  | closing bracket =>
    simp only [step, close] at read
    split at read
    · cases read
    split at read
    · cases read
      exact line_mapLevel _ _
    · cases read
  | newline =>
    cases read
    rfl
  | comment text | opening bracket =>
    cases read
    rfl
  | _ =>
    cases read
    exact line_mapLevel _ _

theorem line_run {g g' : Grouping} {ls : List (Spanned Lexeme)} (read : ls.foldlM step g = .ok g') :
    g'.line = g.line + ls.countP fun l => l.value = .newline := by
  induction ls generalizing g with
  | nil =>
    cases read
    rfl
  | cons l rest ih =>
    rw [List.foldlM_cons] at read
    obtain ⟨mid, first, below⟩ := bind_eq_ok_iff.mp read
    have here := line_step first
    have later := ih below
    rw [List.countP_cons]
    simp only [decide_eq_true_eq]
    omega

theorem newline_eq_behind_initial {g : Grouping} (closed : g.pending = []) (span : Span)
    {d : Shift} (counted : d.lines = g.line) :
    g.newline span =
      initial.behind d (g.flush.output ++ [.leaf .newline ⟨span, g.line⟩]) := by
  obtain ⟨top, pending, output, line⟩ := g
  subst closed
  simp [newline, behind, initial, flush, counted]

end Grouping

/-! ## Texts -/

theorem tokenize_eq_ok_iff {text : String} {ts : List Token} :
    tokenize text = .ok ts ↔ ∃ ls g, Lexeme.Scanned 0 text.toList ls ∧
      ls.foldlM Grouping.step .initial = .ok g ∧ g.pending = [] ∧
      ts = g.flush.output ++ [.leaf .endMarker ⟨.point text.utf8ByteSize, g.line⟩] := by
  unfold tokenize matchBrackets Lexeme.scan
  simp only [bind_eq_ok_iff, Lexeme.scanFrom_eq_ok_iff, Grouping.finish_eq_ok_iff,
    exists_and_left]

/-- Behind a text and a line feed, the tokens are those of the second text, moved. The line feed
stands for the end of the first text. -/
theorem tokenize_join {first second : String} {ts us : List Token}
    (one : tokenize first = .ok ts) (two : tokenize second = .ok us) :
    ∃ body finish feed, ts = body ++ [finish] ∧ finish.endsLine = true ∧ feed.endsLine = true ∧
      tokenize (first ++ "\n" ++ second) =
        .ok (body ++ feed :: us.map (Token.moved (.past first))) := by
  obtain ⟨ls, g, scanned, grouped, closed, rfl⟩ := tokenize_eq_ok_iff.mp one
  obtain ⟨ms, h, scanned', grouped', closed', rfl⟩ := tokenize_eq_ok_iff.mp two
  let d : Shift := .past first
  let span : Span := ⟨first.utf8ByteSize, first.utf8ByteSize + 1⟩
  let feed : Token := .leaf .newline ⟨span, g.line⟩
  -- Line feeds between brackets are no tokens but are counted, so the lines agree with the text's.
  have counted : d.lines = g.line := by
    have lines := Grouping.line_run grouped
    rw [scanned.newlines] at lines
    change first.toList.count '\n' + 1 = g.line
    rw [lines, Nat.add_comm]
    rfl
  have behind : (ls ++ ⟨.newline, span⟩ :: ms.map (Spanned.moved d)).foldlM Grouping.step .initial =
      .ok (h.behind d (g.flush.output ++ [feed])) := by
    rw [List.foldlM_append, grouped]
    change (ms.map (Spanned.moved d)).foldlM Grouping.step (g.newline span) = _
    rw [Grouping.newline_eq_behind_initial closed span counted]
    exact Grouping.behind_run d grouped'
  refine ⟨g.flush.output, _, feed, rfl, rfl, rfl, ?_⟩
  refine tokenize_eq_ok_iff.mpr ⟨_, _, scanned.join scanned', behind, ?_, ?_⟩
  · simp [Grouping.behind, closed']
  · have size : (first ++ "\n" ++ second).utf8ByteSize = d.bytes + second.utf8ByteSize := by
      simp [d, Shift.past]
      rfl
    rw [Grouping.behind_flush, size]
    simp [Grouping.behind, Token.mapPlaces, Place.moved, Span.moved, Span.point, d]

/-! ## Lines -/

/-- A line without a token is left out. -/
def closeLine : List Token × List (List Token) → List (List Token)
  | (line, rest) => if line.isEmpty then rest else line :: rest

/-- One token in front of a line and the lines after it. -/
def lineStep (t : Token) (lines : List Token × List (List Token)) :
    List Token × List (List Token) :=
  if t.endsLine then ([], closeLine lines) else (t :: lines.1, lines.2)

theorem tokenLines_eq (ts : List Token) :
    tokenLines ts = closeLine (ts.foldr lineStep ([], [])) :=
  rfl

theorem closeLine_append (line : List Token) (lines rest : List (List Token)) :
    closeLine (line, lines ++ rest) = closeLine (line, lines) ++ rest := by
  cases line <;> rfl

theorem foldr_lineStep (ts : List Token) (rest : List (List Token)) :
    ts.foldr lineStep ([], rest) =
      ((ts.foldr lineStep ([], [])).1, (ts.foldr lineStep ([], [])).2 ++ rest) := by
  induction ts with
  | nil => rfl
  | cons t ts ih =>
    rw [List.foldr_cons, List.foldr_cons, ih]
    unfold lineStep
    split
    · rw [closeLine_append]
    · rfl

theorem tokenLines_append (ts us : List Token) {feed : Token} (ends : feed.endsLine = true) :
    tokenLines (ts ++ feed :: us) = tokenLines ts ++ tokenLines us := by
  have fresh : lineStep feed (us.foldr lineStep ([], [])) = ([], tokenLines us) := by
    rw [lineStep, if_pos ends, tokenLines_eq]
  rw [tokenLines_eq, List.foldr_append, List.foldr_cons, fresh, foldr_lineStep, closeLine_append]
  rfl

theorem tokenLines_mapPlaces (f : Place → Place) (ts : List Token) :
    tokenLines (ts.map (Token.mapPlaces f)) =
      (tokenLines ts).map (List.map (Token.mapPlaces f)) := by
  have close (lines : List Token × List (List Token)) :
      closeLine (lines.1.map (Token.mapPlaces f), lines.2.map (List.map (Token.mapPlaces f))) =
        (closeLine lines).map (List.map (Token.mapPlaces f)) := by
    obtain ⟨line, rest⟩ := lines
    cases line <;> rfl
  have fold : (ts.map (Token.mapPlaces f)).foldr lineStep ([], []) =
      ((ts.foldr lineStep ([], [])).1.map (Token.mapPlaces f),
        (ts.foldr lineStep ([], [])).2.map (List.map (Token.mapPlaces f))) := by
    induction ts with
    | nil => rfl
    | cons t rest ih =>
      rw [List.map_cons, List.foldr_cons, List.foldr_cons, ih]
      simp only [lineStep, Token.endsLine_mapPlaces, close]
      split <;> rfl
  rw [tokenLines_eq, fold, close]
  rfl

/-- The lines of two texts with a line feed between them are those of each. -/
theorem tokenLines_join {first second : String} {ts us : List Token}
    (one : tokenize first = .ok ts) (two : tokenize second = .ok us) :
    ∃ ws, tokenize (first ++ "\n" ++ second) = .ok ws ∧
      tokenLines ws =
        tokenLines ts ++ (tokenLines us).map (List.map (Token.moved (.past first))) := by
  obtain ⟨body, finish, feed, rfl, ends, feeds, both⟩ := tokenize_join one two
  refine ⟨_, both, ?_⟩
  rw [tokenLines_append body _ feeds, tokenLines_append body [] ends, tokenLines_mapPlaces]
  simp [tokenLines_eq, closeLine]

theorem ne_nil_of_mem_tokenLines {ts line : List Token} (mem : line ∈ tokenLines ts) :
    line ≠ [] := by
  have close {lines : List Token × List (List Token)} (rest : [] ∉ lines.2) :
      [] ∉ closeLine lines := by
    obtain ⟨line, later⟩ := lines
    cases line with
    | nil => exact rest
    | cons t line => simpa [closeLine] using rest
  have below : [] ∉ (ts.foldr lineStep ([], [])).2 := by
    clear mem
    induction ts with
    | nil => simp
    | cons t rest ih =>
      rw [List.foldr_cons, lineStep]
      split
      · exact close ih
      · exact ih
  rintro rfl
  exact close below mem

end ExprCheck
