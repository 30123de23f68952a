import ExprCheck.Proofs.Token.Lines
/-! Lines as finished levels. A line feed outside all brackets finishes the level of its line and
starts an empty one. Main statement: the tokens of a sequence of lexemes are finished levels with
line feeds between them, and whatever holds of all leaves and passes on to groups holds of all that
stands on these levels. -/
namespace ExprCheck

/-- A property of lexemes gives one of the leaves that they become, and what holds of all that
stands on a level holds of the group that it becomes. -/
structure Groups (Q : Lexeme → Prop) (P : Token → Prop) : Prop where
  leaf : ∀ value l place, Q value → value.leaf? = some l → P (.leaf l place)
  group : ∀ (l : Level) bracket place, l.Separated → (∀ item ∈ l.items, ∀ t ∈ item, P t) →
    (∀ t ∈ l.current, P t) → P (.group bracket l.finish place)

/-- The property holds of all that stands on the level. -/
structure Level.All (P : Token → Prop) (l : Level) : Prop where
  separated : l.Separated
  items : ∀ item ∈ l.items, ∀ t ∈ item, P t
  current : ∀ t ∈ l.current, P t

namespace Level

variable {P : Token → Prop} {l : Level}

theorem all_empty : empty.All P :=
  ⟨separated_empty, nofun, nofun⟩

theorem All.push (h : l.All P) {t : Token} (holds : P t) : (l.push t).All P where
  separated := h.separated.push t
  items := h.items
  current := List.forall_mem_append.mpr ⟨h.current, List.forall_mem_singleton.mpr holds⟩

theorem All.separate (h : l.All P) (comma : Place) : (l.separate comma).All P where
  separated := l.separated_separate comma
  items := List.forall_mem_append.mpr ⟨h.items, List.forall_mem_singleton.mpr h.current⟩
  current := nofun

theorem All.finish (h : l.All P) :
    l.items = [] ∧ l.finish = l.current ∨
      ∃ place, 2 ≤ (l.items ++ [l.current]).length ∧
        l.finish = [.tuple (l.items ++ [l.current]) place] ∧
        ∀ item ∈ l.items ++ [l.current], ∀ t ∈ item, P t := by
  unfold Level.finish
  split
  · rename_i noComma
    exact .inl ⟨h.separated.mp noComma, rfl⟩
  · rename_i comma seen
    have behind : l.items ≠ [] := by
      intro none
      rw [h.separated.mpr none] at seen
      cases seen
    have several : 2 ≤ (l.items ++ [l.current]).length := by
      have positive := List.length_pos_iff.mpr behind
      simp only [List.length_append, List.length_singleton]
      omega
    exact .inr ⟨_, several, rfl,
      List.forall_mem_append.mpr ⟨h.items, List.forall_mem_singleton.mpr h.current⟩⟩

theorem All.inline (inline : ∀ t, P t → t.endsLine = false) (h : l.All P) :
    ∀ t ∈ l.finish, t.endsLine = false := by
  rcases h.finish with ⟨-, same⟩ | ⟨comma, -, same, -⟩
  · rw [same]
    exact fun t mem => inline t (h.current t mem)
  · rw [same]
    exact List.forall_mem_singleton.mpr rfl

end Level

def lineTokens (done : List (Level × Place)) : List Token :=
  done.flatMap fun x => x.1.finish ++ [.leaf .newline x.2]

namespace Grouping

/-- These lines have been finished, and the property holds of all that stands on levels. -/
structure Reading (P : Token → Prop) (done : List (Level × Place)) (g : Grouping) : Prop where
  output : g.output = lineTokens done
  done : ∀ x ∈ done, x.1.All P
  top : g.top.All P
  pending : ∀ p ∈ g.pending, p.level.All P

def finished (g : Grouping) (l : Spanned Lexeme) : List (Level × Place) :=
  if l.value = .newline ∧ g.pending = [] then [(g.top, ⟨l.span, g.line⟩)] else []

namespace Reading

variable {Q : Lexeme → Prop} {P : Token → Prop} {done : List (Level × Place)} {g g' : Grouping}

theorem initial : Reading P [] .initial :=
  ⟨rfl, nofun, Level.all_empty, nofun⟩

theorem mapLevel (h : g.Reading P done) {f : Level → Level}
    (keeps : ∀ l : Level, l.All P → (f l).All P) : (g.mapLevel f).Reading P done := by
  obtain ⟨top, pending, output, line⟩ := g
  cases pending with
  | nil => exact ⟨h.output, h.done, keeps top h.top, h.pending⟩
  | cons p rest =>
    obtain ⟨here, below⟩ := List.forall_mem_cons.mp h.pending
    exact ⟨h.output, h.done, h.top, List.forall_mem_cons.mpr ⟨keeps p.level here, below⟩⟩

theorem push (h : g.Reading P done) {t : Token} (holds : P t) : (g.push t).Reading P done :=
  h.mapLevel fun _ level => level.push holds

theorem newline (h : g.Reading P done) (span : Span) :
    (g.newline span).Reading P (done ++ g.finished ⟨.newline, span⟩) := by
  obtain ⟨top, pending, output, line⟩ := g
  cases pending with
  | nil =>
    have longer : output ++ top.finish ++ [Token.leaf .newline ⟨span, line⟩] =
        lineTokens (done ++ [(top, ⟨span, line⟩)]) := by
      have output : output = lineTokens done := h.output
      simp [output, lineTokens]
    exact ⟨longer, List.forall_mem_append.mpr ⟨h.done, List.forall_mem_singleton.mpr h.top⟩,
      Level.all_empty, nofun⟩
  | cons p rest =>
    rw [finished, if_neg (by simp), List.append_nil]
    exact ⟨h.output, h.done, h.top, h.pending⟩

theorem step (groups : Groups Q P) {l : Spanned Lexeme} (h : g.Reading P done)
    (holds : l.value.leaf?.isSome → Q l.value) (step : g.Step l g') :
    g'.Reading P (done ++ g.finished l) := by
  cases step with
  | newline => exact h.newline _
  | @leaf value span l kept =>
    have other : value ≠ .newline := by
      rintro rfl
      cases kept
    rw [finished, if_neg (by simp [other]), List.append_nil]
    exact h.push (groups.leaf value l _ (holds (by simp [kept])) kept)
  | comment =>
    rw [finished, if_neg (by simp), List.append_nil]
    exact h
  | comma =>
    rw [finished, if_neg (by simp), List.append_nil]
    exact h.mapLevel fun _ level => level.separate _
  | opening =>
    rw [finished, if_neg (by simp), List.append_nil]
    exact ⟨h.output, h.done, h.top, List.forall_mem_cons.mpr ⟨Level.all_empty, h.pending⟩⟩
  | @closing p rest span innermost =>
    obtain ⟨here, below⟩ := List.forall_mem_cons.mp (innermost ▸ h.pending)
    have outside : Reading P done { g with pending := rest } := ⟨h.output, h.done, h.top, below⟩
    rw [finished, if_neg (by simp), List.append_nil]
    exact outside.push (groups.group p.level p.bracket _ here.separated here.items here.current)

theorem levels (h : g.Reading P done) : ∀ l ∈ done.map Prod.fst ++ [g.top], l.All P :=
  List.forall_mem_append.mpr ⟨List.forall_mem_map.mpr h.done, List.forall_mem_singleton.mpr h.top⟩

end Reading

end Grouping

/-- The tokens of a sequence of lexemes are finished levels, with line feeds between them and the
end marker behind the last one. -/
theorem levels_of_matchBrackets {Q : Lexeme → Prop} {P : Token → Prop} (groups : Groups Q P)
    {ls : List (Spanned Lexeme)} {eof : Nat} {ts : List Token}
    (holds : ∀ l ∈ ls, l.value.leaf?.isSome → Q l.value)
    (accepted : matchBrackets ls eof = .ok ts) :
    ∃ (done : List (Level × Place)) (last : Level) (place : Place),
      (∀ x ∈ done, x.1.All P) ∧ last.All P ∧
      ts = lineTokens done ++ last.finish ++ [.leaf .endMarker place] := by
  obtain ⟨g, run, closed, rfl⟩ := matchBrackets_eq_ok_iff.mp accepted
  obtain ⟨done, reading⟩ : ∃ done, g.Reading P done := by
    refine Grouping.run_induction (P := fun _ g => ∃ done, g.Reading P done) run ⟨[], .initial⟩ ?_
    rintro before l g g' mem ⟨done, reading⟩ step
    exact ⟨_, reading.step groups (holds l mem) step⟩
  exact ⟨done, g.top, ⟨.point eof, g.line⟩, reading.done, reading.top,
    by simp [Grouping.flush, reading.output]⟩

theorem tokenLines_of_inline {run : List Token} (inline : ∀ t ∈ run, t.endsLine = false) :
    tokenLines run = [run].filter fun line => !line.isEmpty := by
  have fold : run.foldr lineStep ([], []) = (run, []) := by
    induction run with
    | nil => rfl
    | cons t rest ih =>
      obtain ⟨here, below⟩ := List.forall_mem_cons.mp inline
      rw [List.foldr_cons, ih below, lineStep, here]
      rfl
  rw [tokenLines_eq, fold]
  cases run <;> rfl

/-- The lines are the levels that hold a token or a comma. -/
theorem tokenLines_levels {P : Token → Prop} (inline : ∀ t, P t → t.endsLine = false)
    {done : List (Level × Place)} {last : Level} (all : ∀ x ∈ done, x.1.All P)
    (allLast : last.All P) (place : Place) :
    tokenLines (lineTokens done ++ last.finish ++ [.leaf .endMarker place]) =
      ((done.map Prod.fst ++ [last]).map Level.finish).filter fun line => !line.isEmpty := by
  have level {l : Level} (all : l.All P) :
      tokenLines l.finish = [l.finish].filter fun line => !line.isEmpty :=
    tokenLines_of_inline (all.inline inline)
  induction done with
  | nil =>
    have ends : (Token.leaf .endMarker place).endsLine = true := rfl
    have nothing : tokenLines [] = [] := rfl
    rw [lineTokens, List.flatMap_nil, List.nil_append, tokenLines_append last.finish [] ends,
      nothing, List.append_nil, level allLast]
    rfl
  | cons x rest ih =>
    obtain ⟨here, below⟩ := List.forall_mem_cons.mp all
    have ends : (Token.leaf .newline x.2).endsLine = true := rfl
    have parts : lineTokens (x :: rest) ++ last.finish ++ [.leaf .endMarker place] =
        x.1.finish ++ .leaf .newline x.2 ::
          (lineTokens rest ++ last.finish ++ [.leaf .endMarker place]) := by
      simp [lineTokens]
    rw [parts, tokenLines_append x.1.finish _ ends, ih below, level here, ← List.filter_append]
    rfl

end ExprCheck
