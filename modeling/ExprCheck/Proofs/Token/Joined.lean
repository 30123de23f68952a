import ExprCheck.Proofs.Lexeme.Spaced
import ExprCheck.Proofs.Token.Levels
/-! The lines of a text as one line. A comma reaches over the whole line that it stands on, outside
all brackets, and without line feeds there is only one line. Main statement: with spaces for the
line feeds, the tokens of a text are those of its lines, one line behind the other, unless there are
several and one of them has a comma outside all brackets; then they are one tuple. -/
namespace ExprCheck

/-- A token as it is read, before the commas around it are: no tuple, and no end of a line. -/
def Token.Unjoined : Token → Prop
  | .leaf l _ => l ≠ .newline ∧ l ≠ .endMarker
  | .tuple .. => False
  | .group .. => True

theorem Token.Unjoined.endsLine {t : Token} (h : t.Unjoined) : t.endsLine = false := by
  unfold Token.endsLine
  split
  · exact absurd rfl h.1
  · exact absurd rfl h.2
  · rfl

theorem groups_unjoined : Groups (fun _ => True) Token.Unjoined where
  leaf value l place _ kept := by cases value <;> cases kept <;> exact ⟨nofun, nofun⟩
  group _ _ _ _ _ _ := trivial

/-! ## Levels -/

namespace Level

def joined (levels : List Level) : Level :=
  levels.foldl follow .empty

theorem joined_concat (levels : List Level) (l : Level) :
    joined (levels ++ [l]) = (joined levels).follow l := by
  simp [joined]

@[simp] theorem joined_singleton (l : Level) : joined [l] = l :=
  l.empty_follow

theorem All.follow {P : Token → Prop} {l m : Level} (first : l.All P) (second : m.All P) :
    (l.follow m).All P := by
  obtain ⟨items, current, comma⟩ := m
  cases items with
  | nil =>
    have noComma : comma = none := second.separated.mpr rfl
    refine ⟨?_, first.items, List.forall_mem_append.mpr ⟨first.current, second.current⟩⟩
    simpa [Separated, Level.follow, noComma] using first.separated
  | cons item items =>
    obtain ⟨here, below⟩ := List.forall_mem_cons.mp second.items
    have seen : comma ≠ none := by
      intro noComma
      cases second.separated.mp noComma
    refine ⟨by simp [Separated, Level.follow, seen], ?_, second.current⟩
    refine List.forall_mem_append.mpr ⟨first.items, List.forall_mem_cons.mpr ⟨?_, below⟩⟩
    exact List.forall_mem_append.mpr ⟨first.current, here⟩

theorem all_joined {P : Token → Prop} {levels : List Level} (all : ∀ l ∈ levels, l.All P) :
    (joined levels).All P :=
  List.foldlRecOn levels follow all_empty fun _ before l mem => before.follow (all l mem)

theorem relocated_follow (r : Relocation) (l m : Level) :
    (l.follow m).relocated r = (l.relocated r).follow (m.relocated r) := by
  obtain ⟨items, current, comma⟩ := m
  cases items <;> cases found : l.comma <;> simp [follow, relocated, found]

theorem joined_filter {levels : List Level} {P : Token → Prop} (all : ∀ l ∈ levels, l.All P) :
    joined (levels.filter fun l => !l.finish.isEmpty) = joined levels := by
  have empty {l : Level} (all : l.All P) (nothing : l.finish.isEmpty = true) : l = .empty := by
    have nothing : l.finish = [] := by simpa using nothing
    rcases all.finish with ⟨noItems, same⟩ | ⟨place, -, same, -⟩
    · obtain ⟨items, current, comma⟩ := l
      have noComma : comma = none := all.separated.mpr noItems
      simp_all [Level.empty]
    · simp [same] at nothing
  unfold joined
  generalize Level.empty = base
  induction levels generalizing base with
  | nil => rfl
  | cons l rest ih =>
    obtain ⟨here, below⟩ := List.forall_mem_cons.mp all
    rw [List.filter_cons]
    split
    · exact ih below _
    · rename_i nothing
      rw [List.foldl_cons, empty here (by simpa using nothing), follow_empty]
      exact ih below _

theorem finish_of_noComma {l : Level} (noComma : l.comma = none) : l.finish = l.current := by
  unfold finish
  rw [noComma]

theorem finish_of_comma {l : Level} {comma : Place} (seen : l.comma = some comma) :
    ∃ place, l.finish = [.tuple (l.items ++ [l.current]) place] := by
  unfold finish
  rw [seen]
  exact ⟨_, rfl⟩

theorem comma_joined {levels : List Level} :
    (joined levels).comma = none ↔ ∀ l ∈ levels, l.comma = none := by
  have onwards (base : Level) : (levels.foldl follow base).comma = none ↔
      base.comma = none ∧ ∀ l ∈ levels, l.comma = none := by
    induction levels generalizing base with
    | nil => simp
    | cons l rest ih =>
      have both : (base.follow l).comma = base.comma.or l.comma := by
        unfold follow
        split <;> rfl
      rw [List.foldl_cons, ih, both]
      simp [and_assoc]
  exact (onwards .empty).trans (and_iff_right rfl)

theorem finish_joined {levels : List Level} {P : Token → Prop} (all : ∀ l ∈ levels, l.All P)
    (noComma : ∀ l ∈ levels, l.comma = none) :
    (joined levels).finish = (levels.map finish).flatten := by
  have onwards (base : Level) (fresh : base.comma = none) :
      (levels.foldl follow base).finish = base.finish ++ (levels.map finish).flatten := by
    induction levels generalizing base with
    | nil => simp
    | cons l rest ih =>
      obtain ⟨here, below⟩ := List.forall_mem_cons.mp noComma
      obtain ⟨allHere, allBelow⟩ := List.forall_mem_cons.mp all
      have noItems : l.items = [] := allHere.separated.mp here
      have follows : base.follow l = ⟨base.items, base.current ++ l.current, none⟩ := by
        simp [follow, noItems, fresh, here]
      rw [List.foldl_cons, follows, ih allBelow below _ rfl]
      simp [finish, fresh, here]
  exact onwards .empty rfl

end Level

/-! ## Reading -/

/-- All on the first line, at the same bytes. -/
def oneLine : Relocation :=
  ⟨id, fun _ => 1, fun _ _ => rfl⟩

namespace Grouping

/-- The state that has read the same without the line feeds: the lines that have been finished stand
on the level of the line being read. -/
def unbroken (done : List (Level × Place)) (g : Grouping) : Grouping :=
  g.relocated oneLine ((Level.joined (done.map Prod.fst)).relocated oneLine) []

theorem unbroken_newline (done : List (Level × Place)) (g : Grouping) (span : Span) :
    (g.newline span).unbroken (done ++ g.finished ⟨.newline, span⟩) = g.unbroken done := by
  obtain ⟨top, pending, output, line⟩ := g
  cases pending with
  | nil => simp [unbroken, relocated, newline, flush, finished, Level.joined_concat,
      Level.relocated_follow, oneLine]
  | cons p rest => simp [unbroken, relocated, newline, finished, oneLine]

theorem unbroken_step {g g' : Grouping} {l : Spanned Lexeme} (done : List (Level × Place))
    (other : l.value ≠ .newline) (step : g.Step l g') :
    (g.unbroken done).step l = .ok (g'.unbroken (done ++ g.finished l)) := by
  have none : g.finished l = [] := if_neg fun both => other both.1
  rw [none, List.append_nil]
  exact relocated_step oneLine _ [] other (step_eq_ok_iff.mpr step)

theorem output_unbroken (done : List (Level × Place)) (g : Grouping) :
    (g.unbroken done).flush.output =
      (Level.joined (done.map Prod.fst ++ [g.top])).finish.map (Token.relocated oneLine) := by
  rw [Level.joined_concat, ← Level.relocated_finish, Level.relocated_follow]
  rfl

/-- Without its line feeds, a text is read to the same state with its lines on one level. -/
theorem run_unbroken {ls : List (Spanned Lexeme)} {g : Grouping}
    (run : ls.foldlM step initial = .ok g) :
    ∃ done, g.Reading Token.Unjoined done ∧
      (ls.filter fun l => l.value ≠ .newline).foldlM step initial = .ok (g.unbroken done) := by
  refine run_induction (P := fun ls g => ∃ done, g.Reading Token.Unjoined done ∧
    (ls.filter fun l => l.value ≠ .newline).foldlM step initial = .ok (g.unbroken done))
    run ⟨[], .initial, rfl⟩ ?_
  rintro before l g g' - ⟨done, reading, read⟩ step
  refine ⟨done ++ g.finished l, reading.step groups_unjoined (fun _ => trivial) step, ?_⟩
  rw [List.filter_append, List.foldlM_append, read]
  by_cases feed : l.value = .newline
  · obtain ⟨value, span⟩ := l
    cases feed
    cases step_eq_ok_iff.mpr step
    rw [unbroken_newline]
    rfl
  · have kept : [l].filter (fun l => l.value ≠ .newline) = [l] := by simp [feed]
    rw [kept]
    change [l].foldlM Grouping.step (g.unbroken done) = _
    rw [List.foldlM_cons, unbroken_step done feed step]
    rfl

end Grouping

/-! ## Texts -/

/-- The tokens of a text without its line ends, which mean nothing in a single expression. -/
def wholeRun (ts : List Token) : List Token :=
  ts.filter fun t => !t.endsLine

/-- No line feed ends a comma's reach: there is one line at most, or no line has a comma outside
all brackets. -/
def Unsplit (ts : List Token) : Prop :=
  (tokenLines ts).length ≤ 1 ∨
    ∀ line ∈ tokenLines ts, ∀ items place, Token.tuple items place ∉ line

theorem wholeRun_eq_flatten (ts : List Token) : wholeRun ts = (tokenLines ts).flatten := by
  have close (lines : List Token × List (List Token)) :
      (closeLine lines).flatten = lines.1 ++ lines.2.flatten := by
    obtain ⟨line, rest⟩ := lines
    cases line <;> rfl
  rw [tokenLines_eq, close]
  unfold wholeRun
  induction ts with
  | nil => rfl
  | cons t rest ih =>
    rw [List.filter_cons, List.foldr_cons, lineStep]
    cases ends : t.endsLine with
    | true => simpa [close] using ih
    | false => simpa using ih

theorem tuple_mem_of_not_unsplit {ts : List Token} (split : ¬ Unsplit ts) :
    2 ≤ (wholeRun ts).length ∧ ∃ items place, .tuple items place ∈ wholeRun ts := by
  obtain ⟨several, commas⟩ := not_or.mp split
  rw [wholeRun_eq_flatten]
  constructor
  · have nonempty (line : List Token) (mem : line ∈ tokenLines ts) : 0 < line.length :=
      List.length_pos_iff.mpr (ne_nil_of_mem_tokenLines mem)
    generalize tokenLines ts = lines at several nonempty
    match lines with
    | [] => exact absurd (Nat.zero_le 1) several
    | [line] => exact absurd (Nat.le_refl 1) several
    | line :: next :: rest =>
      have here := nonempty line (by simp)
      have there := nonempty next (by simp)
      simp only [List.flatten_cons, List.length_append]
      omega
  · simp only [Classical.not_forall, Classical.not_not] at commas
    obtain ⟨line, mem, items, place, tuple⟩ := commas
    exact ⟨items, place, List.mem_flatten.mpr ⟨line, mem, tuple⟩⟩

/-- The lines are levels that hold something. With spaces for the line feeds, the tokens are those
of the levels joined to one. -/
theorem tokenize_spaced {source : String} {ls : List (Spanned Lexeme)} {ts : List Token}
    (scanned : Lexeme.scan source = .ok ls)
    (noComment : ∀ l ∈ ls, ∀ text, l.value ≠ .comment text) (tokens : tokenize source = .ok ts) :
    ∃ levels us, (∀ l ∈ levels, l.All Token.Unjoined ∧ l.finish ≠ []) ∧
      tokenLines ts = levels.map Level.finish ∧
      tokenize (spaced source) = .ok us ∧
      wholeRun us = (Level.joined levels).finish.map (Token.relocated oneLine) := by
  obtain ⟨ls', g, scanned', run, closed, rfl⟩ := tokenize_eq_ok_iff.mp tokens
  cases scanned.symm.trans (Lexeme.scanFrom_eq_ok_iff.mpr scanned')
  obtain ⟨done, reading, unbroken⟩ := Grouping.run_unbroken run
  let levels := done.map Prod.fst ++ [g.top]
  have all : ∀ l ∈ levels, l.All Token.Unjoined := reading.levels
  have inline : ∀ t ∈ (Level.joined levels).finish.map (Token.relocated oneLine),
      t.endsLine = false := by
    refine List.forall_mem_map.mpr fun t mem => ?_
    rw [Token.endsLine_mapPlaces]
    exact (Level.all_joined all).inline (fun _ h => h.endsLine) t mem
  have chars : (spaced source).toList = source.toList.map Lexeme.spaceFor := String.toList_map
  have read := chars ▸ scanned'.spaced noComment
  have closed' : (g.unbroken done).pending = [] := by
    simp [Grouping.unbroken, Grouping.relocated, closed]
  refine ⟨levels.filter fun l => !l.finish.isEmpty, _, ?_, ?_,
    tokenize_eq_ok_iff.mpr ⟨_, _, read, unbroken, closed', rfl⟩, ?_⟩
  · intro l mem
    obtain ⟨among, holds⟩ := List.mem_filter.mp mem
    exact ⟨all l among, by simpa using holds⟩
  · have output : g.flush.output = lineTokens done ++ g.top.finish := by
      rw [← reading.output]
      rfl
    rw [output, tokenLines_levels (fun _ h => h.endsLine) reading.done reading.top, List.filter_map]
    rfl
  · have ends (place : Place) : (Token.leaf .endMarker place).endsLine = true := rfl
    rw [Level.joined_filter all, Grouping.output_unbroken, wholeRun, List.filter_append,
      List.filter_eq_self.mpr fun t mem => by simp [inline t mem]]
    simp [ends, levels]

/-- Single expressions. With spaces for the line feeds nothing but places change if no comma's reach
ended at a line feed, and else there is one tuple. -/
theorem wholeRun_spaced {source : String} {ls : List (Spanned Lexeme)} {ts : List Token}
    (scanned : Lexeme.scan source = .ok ls)
    (noComment : ∀ l ∈ ls, ∀ text, l.value ≠ .comment text) (tokens : tokenize source = .ok ts) :
    ∃ us, tokenize (spaced source) = .ok us ∧
      (Unsplit ts → wholeRun us = (wholeRun ts).map (Token.relocated oneLine)) ∧
      (¬ Unsplit ts → ∃ items place, wholeRun us = [.tuple items place]) := by
  obtain ⟨levels, us, all, lines, read, whole⟩ := tokenize_spaced scanned noComment tokens
  refine ⟨us, read, ?_, ?_⟩
  · intro unsplit
    have same : (Level.joined levels).finish = (levels.map Level.finish).flatten := by
      rcases unsplit with few | noTuple
      · rw [lines, List.length_map] at few
        match levels, few with
        | [], _ => rfl
        | [l], _ => simp
      · apply Level.finish_joined fun l mem => (all l mem).1
        intro l mem
        cases seen : l.comma with
        | none => rfl
        | some comma =>
          obtain ⟨place, finish⟩ := Level.finish_of_comma seen
          have line : l.finish ∈ tokenLines ts := lines ▸ List.mem_map_of_mem mem
          exact absurd (finish ▸ List.mem_singleton_self _) (noTuple _ line _ place)
    rw [whole, same, wholeRun_eq_flatten, lines]
  · intro split
    cases seen : (Level.joined levels).comma with
    | none =>
      -- No line has a comma outside all brackets if the joined one has none.
      apply absurd _ split
      right
      intro line mem items place tuple
      obtain ⟨l, among, rfl⟩ := List.mem_map.mp (lines ▸ mem)
      have finish := Level.finish_of_noComma (Level.comma_joined.mp seen l among)
      exact (all l among).1.current _ (finish ▸ tuple)
    | some comma =>
      obtain ⟨place, finish⟩ := Level.finish_of_comma seen
      simp [whole, finish, Token.mapPlaces]

end ExprCheck
