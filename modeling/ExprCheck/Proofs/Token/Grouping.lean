import ExprCheck.Token.Group
/-! The steps of matching brackets. `Grouping.Step` lists what one lexeme can do to a state that
takes it. A level has items exactly if it has seen a comma, which every step keeps. -/
namespace ExprCheck

theorem bind_eq_ok_iff {ε α β : Type} {m : Except ε α} {next : α → Except ε β} {y : β} :
    (m >>= next) = .ok y ↔ ∃ x, m = .ok x ∧ next x = .ok y := by
  cases m with
  | error e => simp [bind, Except.bind]
  | ok x => simp [bind, Except.bind]

/-- The leaf that a lexeme becomes; brackets, commas, line ends and comments become none. -/
def Lexeme.leaf? : Lexeme → Option Leaf
  | str text => some (.str text)
  | number text => some (.number text)
  | name text => some (.name text)
  | op text => some (.op text)
  | dot => some .dot
  | comma | opening _ | closing _ | comment _ | newline => none

/-- Items stand behind a level exactly if a comma has been seen on it. -/
def Level.Separated (l : Level) : Prop :=
  l.comma = none ↔ l.items = []

namespace Level

theorem separated_empty : empty.Separated :=
  ⟨fun _ => rfl, fun _ => rfl⟩

theorem Separated.push {l : Level} (h : l.Separated) (t : Token) : (l.push t).Separated :=
  h

theorem separated_separate (l : Level) (comma : Place) : (l.separate comma).Separated := by
  unfold Separated separate
  cases l.comma <;> simp

end Level

namespace Grouping

inductive Step (g : Grouping) : Spanned Lexeme → Grouping → Prop
  | leaf {value : Lexeme} {span : Span} {l : Leaf} (kept : value.leaf? = some l) :
      Step g ⟨value, span⟩ (g.push (.leaf l ⟨span, g.line⟩))
  | comment {text : String} {span : Span} : Step g ⟨.comment text, span⟩ g
  | newline {span : Span} : Step g ⟨.newline, span⟩ (g.newline span)
  | comma {span : Span} : Step g ⟨.comma, span⟩ (g.mapLevel (·.separate ⟨span, g.line⟩))
  | opening {bracket : Bracket} {span : Span} :
      Step g ⟨.opening bracket, span⟩
        { g with pending := ⟨bracket, ⟨span, g.line⟩, .empty⟩ :: g.pending }
  | closing {p : Pending} {rest : List Pending} {span : Span} (innermost : g.pending = p :: rest) :
      Step g ⟨.closing p.bracket, span⟩
        ({ g with pending := rest }.push
          (.group p.bracket p.level.finish ⟨p.place.span.join span, p.place.line⟩))

theorem step_eq_ok_iff {g g' : Grouping} {l : Spanned Lexeme} :
    g.step l = .ok g' ↔ g.Step l g' := by
  constructor
  · intro read
    obtain ⟨value, span⟩ := l
    cases value with
    | closing found =>
      simp only [step, close] at read
      split at read
      · cases read
      rename_i p rest innermost
      split at read
      · rename_i same
        subst same
        cases read
        exact .closing innermost
      · cases read
    | newline =>
      cases read
      exact .newline
    | comment text =>
      cases read
      exact .comment
    | comma =>
      cases read
      exact .comma
    | opening bracket =>
      cases read
      exact .opening
    | str text | number text | name text | op text | dot =>
      cases read
      exact .leaf rfl
  · intro step
    cases step with
    | @leaf value span l kept =>
      cases value <;> cases kept <;> rfl
    | comment | newline | comma | opening => rfl
    | closing innermost => simp [Grouping.step, close, innermost]

/-- All levels of the state are such that items and commas agree. -/
structure Separated (g : Grouping) : Prop where
  top : g.top.Separated
  pending : ∀ p ∈ g.pending, p.level.Separated

theorem separated_initial : initial.Separated :=
  ⟨Level.separated_empty, fun _ mem => nomatch mem⟩

theorem Separated.mapLevel {g : Grouping} (h : g.Separated) {f : Level → Level}
    (keeps : ∀ l : Level, l.Separated → (f l).Separated) : (g.mapLevel f).Separated := by
  obtain ⟨top, pending, output, line⟩ := g
  cases pending with
  | nil => exact ⟨keeps top h.top, h.pending⟩
  | cons p rest =>
    obtain ⟨here, below⟩ := List.forall_mem_cons.mp h.pending
    exact ⟨h.top, List.forall_mem_cons.mpr ⟨keeps p.level here, below⟩⟩

theorem Separated.step {g g' : Grouping} {l : Spanned Lexeme} (h : g.Separated)
    (step : g.Step l g') : g'.Separated := by
  cases step with
  | leaf kept => exact h.mapLevel fun _ level => level.push _
  | comment => exact h
  | newline =>
    obtain ⟨top, pending, output, line⟩ := g
    cases pending with
    | nil => exact ⟨Level.separated_empty, h.pending⟩
    | cons p rest => exact ⟨h.top, h.pending⟩
  | comma => exact h.mapLevel fun level _ => level.separated_separate _
  | opening => exact ⟨h.top, List.forall_mem_cons.mpr ⟨Level.separated_empty, h.pending⟩⟩
  | closing innermost =>
    rename_i p rest span
    have outside : Separated { g with pending := rest } :=
      ⟨h.top, fun q mem => h.pending q (innermost ▸ List.mem_cons_of_mem p mem)⟩
    exact outside.mapLevel fun _ level => level.push _

theorem finish_eq_ok_iff {g : Grouping} {eof : Nat} {ts : List Token} :
    g.finish eof = .ok ts ↔
      g.pending = [] ∧ ts = g.flush.output ++ [.leaf .endMarker ⟨.point eof, g.line⟩] := by
  unfold finish
  split
  · rename_i p last
    constructor
    · rintro ⟨⟩
    · rintro ⟨none, -⟩
      simp [none] at last
  · rename_i none
    simp only [List.getLast?_eq_none_iff] at none
    simp [none, eq_comm]

/-- What holds of the start and is kept by every step holds of the whole run. -/
theorem run_induction {P : List (Spanned Lexeme) → Grouping → Prop} {ls : List (Spanned Lexeme)}
    {g : Grouping} (run : ls.foldlM step initial = .ok g) (start : P [] initial)
    (step : ∀ done l g g', l ∈ ls → P done g → g.Step l g' → P (done ++ [l]) g') : P ls g := by
  have onwards (done rest : List (Spanned Lexeme)) (h : Grouping) (whole : ls = done ++ rest)
      (holds : P done h) (reads : rest.foldlM Grouping.step h = .ok g) : P ls g := by
    induction rest generalizing done h with
    | nil =>
      cases reads
      simpa [whole] using holds
    | cons l rest ih =>
      rw [List.foldlM_cons] at reads
      obtain ⟨mid, here, below⟩ := bind_eq_ok_iff.mp reads
      have next : P (done ++ [l]) mid :=
        step done l h mid (by simp [whole]) holds (step_eq_ok_iff.mp here)
      exact ih (done ++ [l]) mid (by simp [whole]) next below
  exact onwards [] ls initial rfl start run

end Grouping

theorem matchBrackets_eq_ok_iff {ls : List (Spanned Lexeme)} {eof : Nat} {ts : List Token} :
    matchBrackets ls eof = .ok ts ↔ ∃ g, ls.foldlM Grouping.step .initial = .ok g ∧
      g.pending = [] ∧ ts = g.flush.output ++ [.leaf .endMarker ⟨.point eof, g.line⟩] := by
  unfold matchBrackets
  simp only [bind_eq_ok_iff, Grouping.finish_eq_ok_iff]

end ExprCheck
