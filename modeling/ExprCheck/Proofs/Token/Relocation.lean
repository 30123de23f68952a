import ExprCheck.Proofs.Places
import ExprCheck.Proofs.Shift
import ExprCheck.Proofs.Token.Grouping
/-! Reading the same lexemes at other places. Matching brackets hands places on and joins spans, and
nothing else looks at them. Main statement: from relocated lexemes, behind what a level already
holds, a step that is no line feed reads what it reads from the lexemes themselves, relocated and
behind that level. -/
namespace ExprCheck

/-- How places change: spans and lines each on their own, and joined spans to joined spans. -/
structure Relocation where
  span : Span → Span
  line : Nat → Nat
  join : ∀ a b : Span, (span a).join (span b) = span (a.join b)

namespace Relocation

def place (r : Relocation) (p : Place) : Place :=
  ⟨r.span p.span, r.line p.line⟩

theorem foldl_join (r : Relocation) (spans : List Span) (first : Span) :
    (spans.map r.span).foldl Span.join (r.span first) = r.span (spans.foldl Span.join first) := by
  induction spans generalizing first with
  | nil => rfl
  | cons s rest ih => rw [List.map_cons, List.foldl_cons, List.foldl_cons, r.join, ih]

end Relocation

/-- Everything is moved by what stands in front. -/
def Shift.relocation (d : Shift) : Relocation :=
  ⟨Span.moved d, (d.lines + ·), Span.join_moved d⟩

variable (r : Relocation)

abbrev Token.relocated (t : Token) : Token :=
  t.mapPlaces r.place

def Spanned.relocated {α : Type} (x : Spanned α) : Spanned α :=
  ⟨x.value, r.span x.span⟩

namespace Level

def relocated (l : Level) : Level :=
  ⟨l.items.map (List.map (Token.relocated r)), l.current.map (Token.relocated r),
    l.comma.map r.place⟩

@[simp] theorem relocated_empty : empty.relocated r = empty :=
  rfl

@[simp] theorem relocated_push (l : Level) (t : Token) :
    (l.relocated r).push (t.relocated r) = (l.push t).relocated r := by
  simp [push, relocated]

@[simp] theorem relocated_separate (l : Level) (comma : Place) :
    (l.relocated r).separate (r.place comma) = (l.separate comma).relocated r := by
  cases found : l.comma <;> simp [separate, relocated, found]

theorem relocated_finish (l : Level) :
    (l.relocated r).finish = l.finish.map (Token.relocated r) := by
  cases found : l.comma with
  | none => simp [finish, relocated, found]
  | some comma =>
    have items : (l.relocated r).items ++ [(l.relocated r).current] =
        (l.items ++ [l.current]).map (List.map (Token.relocated r)) := by
      simp [relocated]
    have spans (ts : List Token) : (ts.map (Token.relocated r)).map (fun t => t.place.span) =
        (ts.map fun t => t.place.span).map r.span := by
      simp [Relocation.place]
    have place : (r.place comma).span = r.span comma.span := rfl
    have known : (l.relocated r).comma = some (r.place comma) := by simp [relocated, found]
    simp only [finish, known, found, items, ← List.map_flatten, spans, place, r.foldl_join]
    generalize l.items ++ [l.current] = all
    cases all.flatten with
    | nil => simp [Token.relocated, Token.mapPlaces, mapItemPlaces_eq_map, Relocation.place]
    | cons t rest => simp [Token.relocated, Token.mapPlaces, mapItemPlaces_eq_map, Relocation.place]

/-- What a level holds, behind what another one holds. -/
def follow (l m : Level) : Level :=
  match m.items with
  | [] => ⟨l.items, l.current ++ m.current, l.comma.or m.comma⟩
  | item :: items => ⟨l.items ++ (l.current ++ item) :: items, m.current, l.comma.or m.comma⟩

@[simp] theorem follow_empty (l : Level) : l.follow empty = l := by
  simp [follow, empty]

@[simp] theorem empty_follow (l : Level) : empty.follow l = l := by
  obtain ⟨items, current, comma⟩ := l
  cases items <;> simp [follow, empty]

@[simp] theorem follow_push (l m : Level) (t : Token) :
    (l.follow m).push t = l.follow (m.push t) := by
  obtain ⟨items, current, comma⟩ := m
  cases items <;> simp [follow, push]

@[simp] theorem follow_separate (l m : Level) (comma : Place) :
    (l.follow m).separate comma = l.follow (m.separate comma) := by
  obtain ⟨items, current, seen⟩ := m
  cases items <;> cases l.comma <;> cases seen <;> simp [follow, separate]

end Level

def Pending.relocated (p : Pending) : Pending :=
  { p with place := r.place p.place, level := p.level.relocated r }

namespace Grouping

variable (base : Level) (output : List Token)

/-- The state that has read the same at other places, with its line behind a level and with the
output given. -/
def relocated (g : Grouping) : Grouping :=
  ⟨base.follow (g.top.relocated r), g.pending.map (Pending.relocated r), output, r.line g.line⟩

theorem relocated_mapLevel {change change' : Level → Level} (g : Grouping)
    (commutes : ∀ l : Level, change' (l.relocated r) = (change l).relocated r)
    (follows : ∀ l m : Level, change' (l.follow m) = l.follow (change' m)) :
    (g.relocated r base output).mapLevel change' = (g.mapLevel change).relocated r base output := by
  obtain ⟨top, pending, before, line⟩ := g
  cases pending with
  | nil => simp [mapLevel, relocated, commutes, follows]
  | cons p rest => simp [mapLevel, relocated, Pending.relocated, commutes]

theorem relocated_push (g : Grouping) (t : Token) :
    (g.relocated r base output).push (t.relocated r) = (g.push t).relocated r base output :=
  relocated_mapLevel r base output g (fun l => l.relocated_push r t) fun l m => l.follow_push m _

theorem relocated_close {g g' : Grouping} {found : Bracket} {span : Span}
    (closed : g.close found span = .ok g') :
    (g.relocated r base output).close found (r.span span) = .ok (g'.relocated r base output) := by
  obtain ⟨top, pending, before, line⟩ := g
  cases pending with
  | nil => cases closed
  | cons p rest =>
    simp only [close] at closed
    split at closed
    · rename_i same
      cases closed
      have token : Token.relocated r
          (.group found p.level.finish ⟨p.place.span.join span, p.place.line⟩) =
          .group found (p.level.relocated r).finish
            ⟨(r.place p.place).span.join (r.span span), (r.place p.place).line⟩ := by
        rw [Level.relocated_finish]
        simp [Token.relocated, Token.mapPlaces, mapRunPlaces_eq_map, Relocation.place, r.join]
      rw [← relocated_push, token, close]
      simp [relocated, Pending.relocated, same]
    · cases closed

theorem relocated_step {g g' : Grouping} {l : Spanned Lexeme} (other : l.value ≠ .newline)
    (read : g.step l = .ok g') :
    (g.relocated r base output).step (l.relocated r) = .ok (g'.relocated r base output) := by
  obtain ⟨value, span⟩ := l
  cases value with
  | closing bracket => exact relocated_close r base output read
  | newline => exact absurd rfl other
  | comment text =>
    cases read
    rfl
  | comma =>
    cases read
    have commutes (l : Level) := l.relocated_separate r ⟨span, g.line⟩
    have follows (l m : Level) := l.follow_separate m (r.place ⟨span, g.line⟩)
    exact congrArg Except.ok (relocated_mapLevel r base output g commutes follows)
  | opening bracket =>
    cases read
    rfl
  | str text | number text | name text | op text | dot =>
    cases read
    exact congrArg Except.ok (relocated_push r base output g (.leaf _ ⟨span, g.line⟩))

theorem output_mapLevel (g : Grouping) (change : Level → Level) :
    (g.mapLevel change).output = g.output := by
  unfold mapLevel
  split <;> rfl

theorem output_step {g g' : Grouping} {l : Spanned Lexeme} (other : l.value ≠ .newline)
    (step : g.Step l g') : g'.output = g.output := by
  cases step with
  | newline => exact absurd rfl other
  | leaf | comma | closing => exact output_mapLevel _ _
  | comment | opening => rfl

end Grouping

end ExprCheck
