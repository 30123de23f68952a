import Mathlib.Data.List.Induction
import ExprCheck.Proofs.Token.Lines
/-! Which lexemes match their brackets, and which bracket is at fault. `Balanced` says of lexemes
that their brackets are nested and matched, with no stack in it. The pending brackets of a state are
described through it: `Opens` cuts what has been read at the brackets that are still open, and
between two cuts the lexemes are balanced. Main statement: exactly balanced lexemes are read;
otherwise the fault is at the first lexeme that no completion can have read, or at the outermost
bracket that is never closed. -/
namespace ExprCheck

def Lexeme.isBracket : Lexeme → Bool
  | opening _ | closing _ => true
  | _ => false

theorem Lexeme.isBracket_of_leaf? {value : Lexeme} {l : Leaf} (kept : value.leaf? = some l) :
    value.isBracket = false := by
  cases value <;> first | rfl | cases kept

/-- The brackets are nested and matched, whatever stands between them. -/
inductive Balanced : List Lexeme → Prop
  | nil : Balanced []
  | plain {l : Lexeme} {behind : List Lexeme} (plain : l.isBracket = false)
      (below : Balanced behind) : Balanced (l :: behind)
  | pair {bracket : Bracket} {inside behind : List Lexeme} (within : Balanced inside)
      (below : Balanced behind) :
      Balanced (.opening bracket :: (inside ++ .closing bracket :: behind))

/-- Some lexemes behind these make them balanced. -/
def Balanceable (ls : List Lexeme) : Prop :=
  ∃ more, Balanced (ls ++ more)

namespace Balanced

theorem append {ls more : List Lexeme} (first : Balanced ls) (second : Balanced more) :
    Balanced (ls ++ more) := by
  induction first with
  | nil => exact second
  | plain notBracket _ ih => exact .plain notBracket ih
  | pair within _ _ ih =>
    rw [List.cons_append, List.append_assoc]
    exact .pair within ih

theorem balanceable {ls : List Lexeme} (h : Balanced ls) : Balanceable ls :=
  ⟨[], by rwa [List.append_nil]⟩

end Balanced

/-- The line of what comes next if the first of these lexemes is on the line given. -/
def lineBehind (first : Nat) (ls : List (Spanned Lexeme)) : Nat :=
  first + ls.countP fun l => l.value = .newline

theorem lineBehind_append (first : Nat) (ls more : List (Spanned Lexeme)) :
    lineBehind first (ls ++ more) = lineBehind (lineBehind first ls) more := by
  simp only [lineBehind, List.countP_append]
  omega

/-- The brackets that are open behind lexemes which start on a line, the innermost first. -/
inductive Opens (first : Nat) : List (Spanned Lexeme) → List (Bracket × Place) → Prop
  | closed {ls : List (Spanned Lexeme)} (balanced : Balanced (ls.map Spanned.value)) :
      Opens first ls []
  | within {ls inside : List (Spanned Lexeme)} {stack : List (Bracket × Place)} {bracket : Bracket}
      {span : Span} (outer : Opens first ls stack)
      (balanced : Balanced (inside.map Spanned.value)) :
      Opens first (ls ++ ⟨.opening bracket, span⟩ :: inside)
        ((bracket, ⟨span, lineBehind first ls⟩) :: stack)

namespace Opens

variable {first : Nat} {ls : List (Spanned Lexeme)} {stack : List (Bracket × Place)}

theorem append (h : Opens first ls stack) {more : List (Spanned Lexeme)}
    (balanced : Balanced (more.map Spanned.value)) : Opens first (ls ++ more) stack := by
  cases h with
  | closed before =>
    apply closed
    rw [List.map_append]
    exact before.append balanced
  | @within ls inside stack bracket span outer before =>
    have longer : Balanced ((inside ++ more).map Spanned.value) := by
      rw [List.map_append]
      exact before.append balanced
    rw [List.append_assoc, List.cons_append]
    exact outer.within longer

theorem close {bracket : Bracket} {place : Place} (h : Opens first ls ((bracket, place) :: stack))
    (span : Span) : Opens first (ls ++ [⟨.closing bracket, span⟩]) stack := by
  cases h with
  | @within ls inside _ _ start outer balanced =>
    have pair : Balanced (.opening bracket :: (inside.map Spanned.value ++ [.closing bracket])) :=
      .pair balanced .nil
    rw [List.append_assoc]
    apply outer.append
    simpa using pair

theorem balanceable (h : Opens first ls stack) : Balanceable (ls.map Spanned.value) := by
  have closers : Balanced (ls.map Spanned.value ++ stack.map fun x => .closing x.1) := by
    induction stack generalizing ls with
    | nil =>
      cases h with
      | closed balanced => simpa using balanced
    | cons x stack ih =>
      have rest := ih (h.close (.point 0))
      simpa using rest
  exact ⟨_, closers⟩

theorem outermost (h : Opens first ls stack) {bracket : Bracket} {place : Place}
    (last : stack.getLast? = some (bracket, place)) :
    ∃ before span after inner, ls = before ++ ⟨.opening bracket, span⟩ :: after ∧
      place = ⟨span, lineBehind first before⟩ ∧ Balanced (before.map Spanned.value) ∧
      Opens (lineBehind first (before ++ [⟨.opening bracket, span⟩])) after inner := by
  -- The line is general, as what stands behind the outermost bracket starts on a line of its own.
  induction h with
  | closed balanced => cases last
  | @within ls inside stack own span outer balanced ih =>
    cases stack with
    | nil =>
      cases outer with
      | closed before =>
        cases last
        exact ⟨ls, span, inside, [], rfl, rfl, before, .closed balanced⟩
    | cons x stack =>
      rw [List.getLast?_cons_cons] at last
      obtain ⟨before, start, after, inner, rfl, same, front, opens⟩ := ih last
      have cut : before ++ ⟨.opening bracket, start⟩ :: after ++ ⟨.opening own, span⟩ :: inside =
          before ++ ⟨.opening bracket, start⟩ :: (after ++ ⟨.opening own, span⟩ :: inside) := by
        simp
      exact ⟨before, start, _, _, cut, same, front, opens.within balanced⟩

end Opens

namespace Grouping

def opened (g : Grouping) : List (Bracket × Place) :=
  g.pending.map fun p => (p.bracket, p.place)

@[simp] theorem opened_mapLevel (g : Grouping) (change : Level → Level) :
    (g.mapLevel change).opened = g.opened := by
  obtain ⟨top, pending, output, line⟩ := g
  cases pending <;> rfl

@[simp] theorem opened_newline (g : Grouping) (span : Span) :
    (g.newline span).opened = g.opened := by
  obtain ⟨top, pending, output, line⟩ := g
  cases pending <;> rfl

theorem step_plain (g : Grouping) {l : Spanned Lexeme} (plain : l.value.isBracket = false) :
    ∃ g', g.step l = .ok g' ∧ g'.opened = g.opened := by
  obtain ⟨value, span⟩ := l
  cases value with
  | opening bracket | closing bracket => cases plain
  | newline => exact ⟨_, rfl, opened_newline g span⟩
  | comment text => exact ⟨g, rfl, rfl⟩
  | _ => exact ⟨_, rfl, opened_mapLevel g _⟩

theorem step_opening (g : Grouping) (bracket : Bracket) (span : Span) :
    ∃ g', g.step ⟨.opening bracket, span⟩ = .ok g' ∧
      g'.opened = (bracket, ⟨span, g.line⟩) :: g.opened :=
  ⟨_, rfl, rfl⟩

theorem step_closing {g : Grouping} {bracket : Bracket} {place : Place}
    {rest : List (Bracket × Place)} (innermost : g.opened = (bracket, place) :: rest)
    (span : Span) : ∃ g', g.step ⟨.closing bracket, span⟩ = .ok g' ∧ g'.opened = rest := by
  obtain ⟨p, below, pending, own, rfl⟩ := List.map_eq_cons_iff.mp innermost
  cases own
  exact ⟨_, step_eq_ok_iff.mpr (.closing pending), opened_mapLevel _ _⟩

/-- Balanced lexemes are read from every state, and leave it with the same open brackets. -/
theorem run_of_balanced {values : List Lexeme} (balanced : Balanced values)
    {ls : List (Spanned Lexeme)} (spelled : ls.map Spanned.value = values) (g : Grouping) :
    ∃ g', ls.foldlM step g = .ok g' ∧ g'.opened = g.opened := by
  induction balanced generalizing ls g with
  | nil =>
    rw [List.map_eq_nil_iff] at spelled
    subst spelled
    exact ⟨g, rfl, rfl⟩
  | plain notBracket _ ih =>
    obtain ⟨l, rest, rfl, rfl, restSpelled⟩ := List.map_eq_cons_iff.mp spelled
    obtain ⟨mid, here, kept⟩ := step_plain g notBracket
    obtain ⟨g', below, same⟩ := ih restSpelled mid
    exact ⟨g', bind_eq_ok_iff.mpr ⟨mid, here, below⟩, same.trans kept⟩
  | @pair bracket inside behind _ _ within below =>
    obtain ⟨⟨_, start⟩, tail, rfl, rfl, tailSpelled⟩ := List.map_eq_cons_iff.mp spelled
    obtain ⟨own, tail, rfl, ownSpelled, tailSpelled⟩ := List.map_eq_append_iff.mp tailSpelled
    obtain ⟨⟨_, stop⟩, rest, rfl, rfl, restSpelled⟩ := List.map_eq_cons_iff.mp tailSpelled
    -- Inside the pair its bracket is the innermost open one, and reading the inside keeps that.
    obtain ⟨first, opens, pushed⟩ := step_opening g bracket start
    obtain ⟨second, inner, kept⟩ := within ownSpelled first
    obtain ⟨third, closes, popped⟩ := step_closing (kept.trans pushed) stop
    obtain ⟨g', outer, same⟩ := below restSpelled third
    refine ⟨g', bind_eq_ok_iff.mpr ⟨first, opens, ?_⟩, same.trans popped⟩
    rw [List.foldlM_append]
    exact bind_eq_ok_iff.mpr ⟨second, inner, bind_eq_ok_iff.mpr ⟨third, closes, outer⟩⟩

theorem opens_of_run {ls : List (Spanned Lexeme)} {g : Grouping}
    (run : ls.foldlM step initial = .ok g) : Opens 1 ls g.opened ∧ g.line = lineBehind 1 ls := by
  apply run_induction run
  · exact ⟨.closed .nil, rfl⟩
  intro done l g g' _ before step
  obtain ⟨opens, line⟩ := before
  have nextLine : g'.line = lineBehind 1 (done ++ [l]) := by
    rw [line_step (step_eq_ok_iff.mpr step), line, lineBehind_append]
    simp [lineBehind]
  refine ⟨?_, nextLine⟩
  cases step with
  | leaf kept =>
    rw [Grouping.push, opened_mapLevel]
    exact opens.append (.plain (Lexeme.isBracket_of_leaf? kept) .nil)
  | comment => exact opens.append (.plain rfl .nil)
  | newline =>
    rw [opened_newline]
    exact opens.append (.plain rfl .nil)
  | comma =>
    rw [opened_mapLevel]
    exact opens.append (.plain rfl .nil)
  | opening =>
    rw [line]
    exact opens.within .nil
  | @closing p rest span innermost =>
    rw [Grouping.push, opened_mapLevel]
    have top : Opens 1 done ((p.bracket, p.place) :: rest.map fun p => (p.bracket, p.place)) := by
      rwa [opened, innermost] at opens
    exact top.close span

/-- Reading goes through exactly if the lexemes can be completed. -/
theorem run_iff_balanceable {ls : List (Spanned Lexeme)} :
    (∃ g, ls.foldlM step initial = .ok g) ↔ Balanceable (ls.map Spanned.value) := by
  constructor
  · rintro ⟨g, run⟩
    exact (opens_of_run run).1.balanceable
  · rintro ⟨more, balanced⟩
    obtain ⟨rest, rfl⟩ := Lexeme.exists_spanned more
    rw [← List.map_append] at balanced
    obtain ⟨g, run, -⟩ := run_of_balanced balanced rfl initial
    rw [List.foldlM_append] at run
    obtain ⟨mid, first, -⟩ := bind_eq_ok_iff.mp run
    exact ⟨mid, first⟩

theorem opened_eq_nil_iff {ls : List (Spanned Lexeme)} {g : Grouping}
    (run : ls.foldlM step initial = .ok g) : g.opened = [] ↔ Balanced (ls.map Spanned.value) := by
  constructor
  · intro none
    have opens := (opens_of_run run).1
    rw [none] at opens
    cases opens with
    | closed balanced => exact balanced
  · intro balanced
    obtain ⟨g', other, same⟩ := run_of_balanced balanced rfl initial
    rw [run] at other
    cases other
    exact same

theorem step_eq_error {g : Grouping} {l : Spanned Lexeme} {e : LexError}
    (fails : g.step l = .error e) : ∃ found, l.value = .closing found ∧
      (g.opened = [] ∧ e = ⟨.unmatchedClose found, ⟨l.span, g.line⟩⟩ ∨
        ∃ bracket place rest, g.opened = (bracket, place) :: rest ∧ bracket ≠ found ∧
          e = ⟨.mismatchedClose bracket found, ⟨l.span, g.line⟩⟩) := by
  obtain ⟨value, span⟩ := l
  cases value with
  | closing found =>
    refine ⟨found, rfl, ?_⟩
    obtain ⟨top, pending, output, line⟩ := g
    cases pending with
    | nil =>
      cases fails
      exact .inl ⟨rfl, rfl⟩
    | cons p rest =>
      simp only [step, close] at fails
      split at fails
      · cases fails
      · rename_i other
        cases fails
        exact .inr ⟨p.bracket, p.place, _, rfl, other, rfl⟩
  | _ => cases fails

end Grouping

/-- No closing bracket stands behind balanced lexemes, so an opening bracket in front of these is
never closed. -/
def Unclosed (ls : List Lexeme) : Prop :=
  ∀ inside found behind, ls = inside ++ .closing found :: behind → ¬Balanced inside

theorem Balanceable.unclosed {ls : List Lexeme} (h : Balanceable ls) : Unclosed ls := by
  obtain ⟨more, balanced⟩ := h
  intro inside found behind whole within
  obtain ⟨own, rfl⟩ := Lexeme.exists_spanned inside
  obtain ⟨rest, restSpelled⟩ := Lexeme.exists_spanned (behind ++ more)
  have spelled : (own ++ ⟨.closing found, .point 0⟩ :: rest).map Spanned.value = ls ++ more := by
    simp [restSpelled, whole]
  obtain ⟨g, run, -⟩ := Grouping.run_of_balanced balanced spelled .initial
  rw [List.foldlM_append] at run
  obtain ⟨mid, inner, below⟩ := bind_eq_ok_iff.mp run
  obtain ⟨next, closes, -⟩ := bind_eq_ok_iff.mp below
  have none := (Grouping.opened_eq_nil_iff inner).mpr within
  rw [Grouping.opened, List.map_eq_nil_iff] at none
  simp [Grouping.step, Grouping.close, none] at closes

/-- The lexeme is the first one up to which the lexemes cannot be completed. -/
structure FirstUnreadable (ls before : List (Spanned Lexeme)) (l : Spanned Lexeme) : Prop where
  here : before ++ [l] <+: ls
  completable : Balanceable (before.map Spanned.value)
  fails : ¬Balanceable ((before ++ [l]).map Spanned.value)

theorem exists_firstUnreadable {ls : List (Spanned Lexeme)}
    (fails : ¬Balanceable (ls.map Spanned.value)) : ∃ before l, FirstUnreadable ls before l := by
  induction ls using List.reverseRecOn with
  | nil => exact absurd Balanced.nil.balanceable fails
  | append_singleton front l ih =>
    by_cases completable : Balanceable (front.map Spanned.value)
    · exact ⟨front, l, List.prefix_rfl, completable, fails⟩
    · obtain ⟨before, first, found⟩ := ih completable
      exact ⟨before, first, found.here.trans (List.prefix_append front [l]), found.completable,
        found.fails⟩

theorem FirstUnreadable.matchBrackets_eq {ls before : List (Spanned Lexeme)} {l : Spanned Lexeme}
    (first : FirstUnreadable ls before l) (eof : Nat) :
    ∃ g e, before.foldlM Grouping.step .initial = .ok g ∧ g.step l = .error e ∧
      matchBrackets ls eof = .error e := by
  obtain ⟨after, rfl⟩ := first.here
  obtain ⟨g, run⟩ := Grouping.run_iff_balanceable.mpr first.completable
  have whole : (before ++ [l]).foldlM Grouping.step .initial = g.step l := by
    rw [List.foldlM_append, run]
    exact bind_pure (g.step l)
  cases step : g.step l with
  | ok next =>
    rw [step] at whole
    exact absurd (Grouping.run_iff_balanceable.mp ⟨next, whole⟩) first.fails
  | error e =>
    refine ⟨g, e, run, step, ?_⟩
    rw [matchBrackets, List.foldlM_append, whole, step]
    rfl

/-- The fault at the end is at the outermost bracket that is never closed. -/
theorem matchBrackets_eq_unclosed {ls : List (Spanned Lexeme)}
    (completable : Balanceable (ls.map Spanned.value)) (fails : ¬Balanced (ls.map Spanned.value))
    (eof : Nat) : ∃ before bracket span after, ls = before ++ ⟨.opening bracket, span⟩ :: after ∧
      Balanced (before.map Spanned.value) ∧ Unclosed (after.map Spanned.value) ∧
      matchBrackets ls eof = .error ⟨.unclosed bracket, ⟨span, lineBehind 1 before⟩⟩ := by
  obtain ⟨g, run⟩ := Grouping.run_iff_balanceable.mpr completable
  cases last : g.pending.getLast? with
  | none =>
    have none : g.opened = [] := by
      rw [Grouping.opened, List.getLast?_eq_none_iff.mp last, List.map_nil]
    exact absurd ((Grouping.opened_eq_nil_iff run).mp none) fails
  | some p =>
    have outermost : g.opened.getLast? = some (p.bracket, p.place) := by
      rw [Grouping.opened, List.getLast?_map, last]
      rfl
    obtain ⟨before, span, after, inner, cut, place, front, opens⟩ :=
      (Grouping.opens_of_run run).1.outermost outermost
    refine ⟨before, p.bracket, span, after, cut, front, opens.balanceable.unclosed, ?_⟩
    have ended : matchBrackets ls eof = g.finish eof := by
      rw [matchBrackets, run]
      rfl
    rw [ended, Grouping.finish, last, ← place]

theorem exists_matchBrackets {ls : List (Spanned Lexeme)}
    (balanced : Balanced (ls.map Spanned.value)) (eof : Nat) :
    ∃ ts, matchBrackets ls eof = .ok ts := by
  obtain ⟨g, run⟩ := Grouping.run_iff_balanceable.mpr balanced.balanceable
  have none := (Grouping.opened_eq_nil_iff run).mpr balanced
  exact ⟨_, matchBrackets_eq_ok_iff.mpr ⟨g, run, List.map_eq_nil_iff.mp none, rfl⟩⟩

/-- Exactly balanced lexemes are accepted. Of others the first one that no completion can have read
is a closing bracket, which is reported with the innermost bracket open there if there is one; and
if all of them can be read, the outermost bracket that is never closed is reported. -/
theorem matchBrackets_accepts_balanced_and_blames (ls : List (Spanned Lexeme)) (eof : Nat) :
    ((∃ ts, matchBrackets ls eof = .ok ts) ↔ Balanced (ls.map Spanned.value)) ∧
    (∀ before l, FirstUnreadable ls before l → ∃ found, l.value = .closing found ∧
      (Balanced (before.map Spanned.value) ∧
          matchBrackets ls eof = .error ⟨.unmatchedClose found, ⟨l.span, lineBehind 1 before⟩⟩ ∨
        ∃ outside expected span inside, before = outside ++ ⟨.opening expected, span⟩ :: inside ∧
          Balanced (inside.map Spanned.value) ∧ expected ≠ found ∧
          matchBrackets ls eof =
            .error ⟨.mismatchedClose expected found, ⟨l.span, lineBehind 1 before⟩⟩)) ∧
    (¬Balanced (ls.map Spanned.value) → (∀ before l, ¬FirstUnreadable ls before l) →
      ∃ before bracket span after, ls = before ++ ⟨.opening bracket, span⟩ :: after ∧
        Balanced (before.map Spanned.value) ∧ Unclosed (after.map Spanned.value) ∧
        matchBrackets ls eof = .error ⟨.unclosed bracket, ⟨span, lineBehind 1 before⟩⟩) := by
  constructor
  · constructor
    · rintro ⟨ts, read⟩
      obtain ⟨g, run, none, -⟩ := matchBrackets_eq_ok_iff.mp read
      apply (Grouping.opened_eq_nil_iff run).mp
      rw [Grouping.opened, none, List.map_nil]
    · exact fun balanced => exists_matchBrackets balanced eof
  constructor
  · intro before l first
    obtain ⟨g, e, run, fails, whole⟩ := first.matchBrackets_eq eof
    obtain ⟨opens, line⟩ := Grouping.opens_of_run run
    rw [whole, ← line]
    obtain ⟨found, closing, ⟨none, rfl⟩ | ⟨expected, place, rest, innermost, other, rfl⟩⟩ :=
      Grouping.step_eq_error fails
    · exact ⟨found, closing, .inl ⟨(Grouping.opened_eq_nil_iff run).mp none, rfl⟩⟩
    · rw [innermost] at opens
      cases opens with
      | @within outside inside _ _ span _ balanced =>
        exact ⟨found, closing, .inr ⟨outside, expected, span, inside, rfl, balanced, other, rfl⟩⟩
  · intro fails readable
    -- Else one of them would be the first that cannot be read.
    have completable : Balanceable (ls.map Spanned.value) := by
      by_contra broken
      obtain ⟨before, l, first⟩ := exists_firstUnreadable broken
      exact readable before l first
    exact matchBrackets_eq_unclosed completable fails eof

example : matchBrackets [⟨.opening .paren, ⟨0, 1⟩⟩, ⟨.newline, ⟨1, 2⟩⟩, ⟨.opening .square, ⟨2, 3⟩⟩,
    ⟨.closing .paren, ⟨3, 4⟩⟩] 4 = .error ⟨.mismatchedClose .square .paren, ⟨⟨3, 4⟩, 2⟩⟩ := rfl

end ExprCheck
