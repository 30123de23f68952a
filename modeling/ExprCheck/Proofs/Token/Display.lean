import ExprCheck.Proofs.Lexeme.Alone
import ExprCheck.Proofs.Print
import ExprCheck.Proofs.Token.Flat
import ExprCheck.Proofs.Token.Levels
/-! Tokens that are displayed and read again. A group is displayed with its brackets and a tuple
with its commas, and every leaf as the text that it was. Main statement: a line of a source that is
displayed and tokenized again is one line of the same tokens; only their places differ. -/
namespace ExprCheck

/-- A token without its places. -/
abbrev Token.shape (t : Token) : Token :=
  t.mapPlaces fun _ => .nowhere

theorem Token.shape_tuple (items : List (List Token)) (place : Place) :
    (Token.tuple items place).shape = .tuple (items.map (List.map Token.shape)) .nowhere := by
  rw [Token.shape, Token.mapPlaces, mapItemPlaces_eq_map]

theorem Token.shape_group (bracket : Bracket) (inner : List Token) (place : Place) :
    (Token.group bracket inner place).shape = .group bracket (inner.map Token.shape) .nowhere := by
  rw [Token.shape, Token.mapPlaces, mapRunPlaces_eq_map]

/-! ## Legible tokens -/

/-- What stands on a line or between two brackets: tokens of a class, or one tuple of such items. -/
inductive Content (P : Token → Prop) : List Token → Prop
  | plain {run : List Token} (each : ∀ t ∈ run, P t) : Content P run
  | list {items : List (List Token)} {place : Place} (several : 2 ≤ items.length)
      (each : ∀ item ∈ items, ∀ t ∈ item, P t) : Content P [.tuple items place]

namespace Token

/-- A token that can be read back: its leaves are read back from what shows them, and a tuple fills
the brackets that it stands between. -/
inductive Legible : Token → Prop
  | leaf {value : Lexeme} {l : Leaf} {place : Place} (was : value.leaf? = some l)
      (alone : value.Alone) : Legible (.leaf l place)
  | group {bracket : Bracket} {inner : List Token} {place : Place}
      (each : ∀ t ∈ inner, Legible t) : Legible (.group bracket inner place)
  | list {bracket : Bracket} {items : List (List Token)} {comma place : Place}
      (several : 2 ≤ items.length) (each : ∀ item ∈ items, ∀ t ∈ item, Legible t) :
      Legible (.group bracket [.tuple items comma] place)

theorem Legible.endsLine {t : Token} (h : t.Legible) : t.endsLine = false := by
  cases h with
  | @leaf value l place was alone => cases value <;> cases was <;> rfl
  | group | list => rfl

end Token

theorem Level.All.content {P : Token → Prop} {l : Level} (h : l.All P) : Content P l.finish := by
  rcases h.finish with ⟨-, same⟩ | ⟨place, several, same, each⟩
  · exact same ▸ .plain h.current
  · exact same ▸ .list several each

theorem groups_legible : Groups Lexeme.Alone Token.Legible where
  leaf _ _ _ alone was := .leaf was alone
  group l bracket place separated items current := by
    have all : l.All Token.Legible := ⟨separated, items, current⟩
    rcases all.finish with ⟨-, same⟩ | ⟨comma, several, same, each⟩
    · exact same ▸ .group current
    · exact same ▸ .list several each

theorem content_of_mem_tokenLines {source : String} {ts line : List Token}
    (read : tokenize source = .ok ts) (mem : line ∈ tokenLines ts) :
    Content Token.Legible line := by
  obtain ⟨ls, g, scanned, run, closed, same⟩ := tokenize_eq_ok_iff.mp read
  have alone : ∀ l ∈ ls, l.value.leaf?.isSome → l.value.Alone := by
    intro l among kept
    rcases scanned.alone l among with feed | ⟨text, comment⟩ | alone
    · rw [feed] at kept
      cases kept
    · rw [comment] at kept
      cases kept
    · exact alone
  have accepted := matchBrackets_eq_ok_iff.mpr ⟨g, run, closed, same⟩
  obtain ⟨done, last, place, all, allLast, rfl⟩ :=
    levels_of_matchBrackets groups_legible alone accepted
  rw [tokenLines_levels (fun t => Token.Legible.endsLine) all allLast place] at mem
  obtain ⟨l, among, rfl⟩ := List.mem_map.mp (List.mem_filter.mp mem).1
  rcases List.mem_append.mp among with before | behind
  · obtain ⟨x, here, rfl⟩ := List.mem_map.mp before
    exact (all x here).content
  · exact List.mem_singleton.mp behind ▸ allLast.content

/-! ## Scanning -/

open Lexeme (AtStop Reads)

/-- In front of a stop, what displays the token is scanned to the token written flat. -/
def Token.Scans (t : Token) : Prop :=
  ∀ ext values, AtStop ext → Reads ext values →
    Reads (t.display.toList ++ ext) (t.flat.map Flat.value ++ values)

theorem scans_run {run : List Token} (each : ∀ t ∈ run, t.Scans) {ext : List Char}
    {values : List Lexeme} (stop : AtStop ext) (below : Reads ext values) :
    Reads ((Token.displayRun run).toList ++ ext) ((flatRun run).map Flat.value ++ values) := by
  induction run with
  | nil => exact below
  | cons t rest ih =>
    obtain ⟨here, later⟩ := List.forall_mem_cons.mp each
    cases rest with
    | nil => simpa [Token.displayRun, flatRun] using here ext values stop below
    | cons u rest =>
      have blank : ' ' ∈ Lexeme.stops := by decide
      have whole := here _ _ (Lexeme.atStop_cons blank _) (ih later).blank
      simpa [Token.displayRun, flatRun] using whole

theorem scans_items {items : List (List Token)} (each : ∀ item ∈ items, ∀ t ∈ item, t.Scans)
    {ext : List Char} {values : List Lexeme} (stop : AtStop ext) (below : Reads ext values) :
    Reads ((Token.displayItems items).toList ++ ext)
      ((flatItems items).map Flat.value ++ values) := by
  induction items with
  | nil => exact below
  | cons item rest ih =>
    obtain ⟨here, later⟩ := List.forall_mem_cons.mp each
    cases rest with
    | nil => exact scans_run here stop below
    | cons next rest =>
      have comma : ',' ∈ Lexeme.stops := by decide
      have behind := (ih later).blank.punctuation (c := ',') rfl
      have whole := scans_run here (Lexeme.atStop_cons comma _) behind
      simpa [Token.displayItems, flatItems] using whole

theorem scans_enclosed {bracket : Bracket} {inner : List Token} {place : Place}
    (content : ∀ ext values, AtStop ext → Reads ext values →
      Reads ((Token.displayRun inner).toList ++ ext) ((flatRun inner).map Flat.value ++ values)) :
    (Token.group bracket inner place).Scans := by
  intro ext values stop below
  have closing : Lexeme.punctuation? bracket.closing = some (.closing bracket) := by
    cases bracket <;> rfl
  have opening : Lexeme.punctuation? bracket.opening = some (.opening bracket) := by
    cases bracket <;> rfl
  have closes : bracket.closing ∈ Lexeme.stops := by cases bracket <;> decide
  have inside := content _ _ (Lexeme.atStop_cons closes ext) (below.punctuation closing)
  simpa [Token.display, Token.flat] using inside.punctuation opening

theorem Token.Legible.scans {t : Token} (h : t.Legible) : t.Scans := by
  induction h with
  | @leaf value l place was alone =>
    intro ext values stop below
    have shown : l.display = value.display := by cases value <;> cases was <;> rfl
    simpa [Token.display, flat_leaf was, shown, Spanned.flat] using below.alone alone stop
  | group each ih => exact scans_enclosed fun ext values => scans_run ih
  | list several each ih =>
    refine scans_enclosed fun ext values stop below => ?_
    simpa [Token.displayRun, Token.display, flatRun, Token.flat] using scans_items ih stop below

theorem Content.reads {line : List Token} (h : Content Token.Legible line) :
    Reads (Token.displayRun line).toList ((flatRun line).map Flat.value) := by
  cases h with
  | plain each =>
    simpa using scans_run (fun t mem => (each t mem).scans) Lexeme.atStop_nil .nothing
  | list several each =>
    simpa [Token.displayRun, Token.display, flatRun, Token.flat] using
      scans_items (fun item mem t among => (each item mem t among).scans) Lexeme.atStop_nil .nothing

/-! ## Matching brackets -/

namespace Level

def pushAll (l : Level) (run : List Token) : Level :=
  { l with current := l.current ++ run }

end Level

namespace Grouping

def level (g : Grouping) : Level :=
  match g.pending with
  | [] => g.top
  | p :: _ => p.level

theorem mapLevel_mapLevel (g : Grouping) (f f' : Level → Level) :
    (g.mapLevel f).mapLevel f' = g.mapLevel fun l => f' (f l) := by
  obtain ⟨top, pending, output, line⟩ := g
  cases pending <;> rfl

theorem mapLevel_congr {g : Grouping} {f f' : Level → Level} (same : f g.level = f' g.level) :
    g.mapLevel f = g.mapLevel f' := by
  obtain ⟨top, pending, output, line⟩ := g
  cases pending with
  | nil => exact congrArg (fun top => Grouping.mk top [] output line) same
  | cons p rest =>
    exact congrArg (fun level => Grouping.mk top ({ p with level } :: rest) output line) same

theorem mapLevel_pushAll_nil (g : Grouping) : g.mapLevel (·.pushAll []) = g := by
  obtain ⟨top, pending, output, line⟩ := g
  cases pending <;> simp [mapLevel, Level.pushAll]

end Grouping

/-- From lexemes as the token is written flat, a token of its shape is read and pushed. -/
def Token.Rebuilds (t : Token) : Prop :=
  ∀ (ls : List (Spanned Lexeme)) (g : Grouping),
    ls.map Spanned.value = t.flat.map Flat.value →
      ∃ u : Token, u.shape = t.shape ∧ ls.foldlM Grouping.step g = .ok (g.push u)

theorem rebuilds_run {run : List Token} (each : ∀ t ∈ run, t.Rebuilds) (ls : List (Spanned Lexeme))
    (g : Grouping) (same : ls.map Spanned.value = (flatRun run).map Flat.value) :
    ∃ run' : List Token, run'.map Token.shape = run.map Token.shape ∧
      ls.foldlM Grouping.step g = .ok (g.mapLevel (·.pushAll run')) := by
  induction run generalizing ls g with
  | nil =>
    obtain rfl : ls = [] := List.map_eq_nil_iff.mp same
    exact ⟨[], rfl, by rw [Grouping.mapLevel_pushAll_nil]; rfl⟩
  | cons t rest ih =>
    obtain ⟨here, later⟩ := List.forall_mem_cons.mp each
    rw [flatRun, List.map_append] at same
    obtain ⟨ms, ns, rfl, first, behind⟩ := List.map_eq_append_iff.mp same
    obtain ⟨u, shape, pushed⟩ := here ms g first
    obtain ⟨run', shapes, more⟩ := ih later ns (g.push u) behind
    refine ⟨u :: run', by rw [List.map_cons, shape, shapes, List.map_cons], ?_⟩
    rw [List.foldlM_append, pushed]
    refine more.trans ?_
    rw [Grouping.push, Grouping.mapLevel_mapLevel]
    simp [Level.push, Level.pushAll]

theorem rebuilds_items {item : List Token} {items : List (List Token)}
    (each : ∀ i ∈ item :: items, ∀ t ∈ i, t.Rebuilds) (ls : List (Spanned Lexeme)) (g : Grouping)
    (same : ls.map Spanned.value = (flatItems (item :: items)).map Flat.value) :
    ∃ (items' : List (List Token)) (f : Level → Level),
      items'.map (List.map Token.shape) = (item :: items).map (List.map Token.shape) ∧
      ls.foldlM Grouping.step g = .ok (g.mapLevel f) ∧
      ∀ l, l.current = [] → (f l).items ++ [(f l).current] = l.items ++ items' ∧
        ((f l).comma = none → l.comma = none ∧ items = []) := by
  induction items generalizing item ls g with
  | nil =>
    obtain ⟨run', shapes, read⟩ :=
      rebuilds_run (fun t mem => each item List.mem_cons_self t mem) ls g same
    refine ⟨[run'], (·.pushAll run'), by simp [shapes], read, fun l empty => ⟨?_, ?_⟩⟩
    · simp [Level.pushAll, empty]
    · exact fun none => ⟨none, rfl⟩
  | cons next rest ih =>
    obtain ⟨here, later⟩ := List.forall_mem_cons.mp each
    have flat : flatItems (item :: next :: rest) =
        flatRun item ++ ⟨.comma, none⟩ :: flatItems (next :: rest) := rfl
    rw [flat, List.map_append, List.map_cons] at same
    obtain ⟨ms, ns, rfl, first, behind⟩ := List.map_eq_append_iff.mp same
    obtain ⟨⟨value, span⟩, os, rfl, isComma, more⟩ := List.map_eq_cons_iff.mp behind
    obtain rfl : value = .comma := isComma
    obtain ⟨run', shapes, read⟩ := rebuilds_run here ms g first
    -- The comma leaves an empty last item, on which the other items are read.
    let place : Place := ⟨span, (g.mapLevel (·.pushAll run')).line⟩
    obtain ⟨items', f, shapes', read', fills⟩ :=
      ih later os ((g.mapLevel (·.pushAll run')).mapLevel (·.separate place)) more
    refine ⟨run' :: items', fun l => f ((l.pushAll run').separate place),
      by rw [List.map_cons, shapes, shapes']; rfl, ?_, fun l empty => ?_⟩
    · rw [List.foldlM_append, read]
      refine read'.trans ?_
      rw [Grouping.mapLevel_mapLevel, Grouping.mapLevel_mapLevel]
    · obtain ⟨whole, noComma⟩ := fills ((l.pushAll run').separate place) rfl
      refine ⟨?_, fun none => ?_⟩
      · rw [whole]
        simp [Level.separate, Level.pushAll, empty]
      · have seen := (noComma none).1
        cases before : l.comma <;> simp [Level.separate, Level.pushAll, before] at seen

/-- The content of a level is read on an empty level, which is then finished to that content. -/
def RebuildsContent (content : List Token) : Prop :=
  ∀ (ls : List (Spanned Lexeme)) (g : Grouping),
    ls.map Spanned.value = (flatRun content).map Flat.value → g.level = .empty →
      ∃ l : Level, l.finish.map Token.shape = content.map Token.shape ∧
        ls.foldlM Grouping.step g = .ok (g.mapLevel fun _ => l)

theorem rebuilds_plain {run : List Token} (each : ∀ t ∈ run, t.Rebuilds) :
    RebuildsContent run := by
  intro ls g same empty
  obtain ⟨run', shapes, read⟩ := rebuilds_run each ls g same
  refine ⟨Level.empty.pushAll run', by simpa [Level.finish, Level.pushAll, Level.empty], ?_⟩
  have same : g.level.pushAll run' = Level.empty.pushAll run' := congrArg (·.pushAll run') empty
  exact read.trans (congrArg Except.ok (Grouping.mapLevel_congr same))

theorem rebuilds_list {items : List (List Token)} {comma : Place} (several : 2 ≤ items.length)
    (each : ∀ item ∈ items, ∀ t ∈ item, t.Rebuilds) : RebuildsContent [.tuple items comma] := by
  intro ls g same empty
  match items, several with
  | item :: next :: rest, _ =>
    rw [flatRun_singleton] at same
    obtain ⟨items', f, shapes, read, fills⟩ := rebuilds_items each ls g same
    obtain ⟨whole, commaless⟩ := fills .empty rfl
    refine ⟨f .empty, ?_, ?_⟩
    · cases seen : (f .empty).comma with
      | none => cases (commaless seen).2
      | some place =>
        have same : (f .empty).items ++ [(f .empty).current] = items' := whole
        simp only [Level.finish, seen, same, List.map_singleton, Token.shape_tuple, shapes]
    · exact read.trans (congrArg Except.ok (Grouping.mapLevel_congr (congrArg f empty)))

theorem rebuilds_enclosed {bracket : Bracket} {inner : List Token} {place : Place}
    (content : RebuildsContent inner) : (Token.group bracket inner place).Rebuilds := by
  intro ls g same
  rw [Token.flat, List.map_cons, List.map_append] at same
  obtain ⟨⟨value, span⟩, ms, rfl, opens, below⟩ := List.map_eq_cons_iff.mp same
  obtain rfl : value = .opening bracket := opens
  obtain ⟨ns, os, rfl, inside, behind⟩ := List.map_eq_append_iff.mp below
  obtain ⟨⟨value, span'⟩, ps, rfl, closes, nothing⟩ := List.map_eq_cons_iff.mp behind
  obtain rfl : value = .closing bracket := closes
  obtain rfl : ps = [] := List.map_eq_nil_iff.mp nothing
  let opened : Grouping := { g with pending := ⟨bracket, ⟨span, g.line⟩, .empty⟩ :: g.pending }
  obtain ⟨l, shapes, read⟩ := content ns opened inside rfl
  refine ⟨.group bracket l.finish ⟨span.join span', g.line⟩, ?_, ?_⟩
  · rw [Token.shape_group, Token.shape_group, shapes]
  · have closed : (opened.mapLevel fun _ => l).step ⟨.closing bracket, span'⟩ =
        .ok (g.push (.group bracket l.finish ⟨span.join span', g.line⟩)) := if_pos rfl
    refine bind_eq_ok_iff.mpr ⟨opened, rfl, ?_⟩
    rw [List.foldlM_append]
    exact bind_eq_ok_iff.mpr ⟨_, read, bind_eq_ok_iff.mpr ⟨_, closed, rfl⟩⟩

theorem Token.Legible.rebuilds {t : Token} (h : t.Legible) : t.Rebuilds := by
  induction h with
  | @leaf value l place was alone =>
    intro ls g same
    rw [flat_leaf was] at same
    obtain ⟨⟨value', span⟩, ms, rfl, isValue, nothing⟩ := List.map_eq_cons_iff.mp same
    obtain rfl : value' = value := isValue
    obtain rfl : ms = [] := List.map_eq_nil_iff.mp nothing
    refine ⟨.leaf l ⟨span, g.line⟩, rfl, ?_⟩
    rw [List.foldlM_cons, Grouping.step_eq_ok_iff.mpr (.leaf was)]
    rfl
  | group each ih => exact rebuilds_enclosed (rebuilds_plain ih)
  | list several each ih => exact rebuilds_enclosed (rebuilds_list several ih)

theorem Content.rebuilds {line : List Token} (h : Content Token.Legible line) :
    RebuildsContent line := by
  cases h with
  | plain each => exact rebuilds_plain fun t mem => (each t mem).rebuilds
  | list several each =>
    exact rebuilds_list several fun item mem t among => (each item mem t among).rebuilds

/-! ## Lines -/

theorem displayRun_eq_intercalate (run : List Token) :
    Token.displayRun run = " ".intercalate (run.map Token.display) := by
  induction run with
  | nil => rfl
  | cons t rest ih =>
    cases rest with
    | nil => rfl
    | cons u rest =>
      have parts : Token.displayRun (t :: u :: rest) =
          t.display ++ " " ++ Token.displayRun (u :: rest) := rfl
      apply String.toList_injective
      have below := congrArg String.toList ih
      rw [String.toList_intercalate] at below
      rw [String.toList_intercalate, List.map_cons, List.map_cons, List.map_cons, List.map_cons,
        List.intercalate_cons_cons, parts]
      simpa using below

theorem Content.inline {line : List Token} (h : Content Token.Legible line) :
    ∀ t ∈ line, t.endsLine = false := by
  cases h with
  | plain each => exact fun t mem => (each t mem).endsLine
  | list => exact List.forall_mem_singleton.mpr rfl

/-- A line of a source that is displayed, with a space between its tokens, and tokenized again is
one line of the same tokens; only their places differ. -/
theorem tokenize_display {source : String} {ts line : List Token}
    (read : tokenize source = .ok ts) (mem : line ∈ tokenLines ts) :
    ∃ us line', tokenize (" ".intercalate (line.map Token.display)) = .ok us ∧
      tokenLines us = [line'] ∧ line'.map Token.shape = line.map Token.shape := by
  have content := content_of_mem_tokenLines read mem
  obtain ⟨ls, scanned, values⟩ := content.reads 0
  obtain ⟨l, shapes, run⟩ := content.rebuilds ls .initial values rfl
  have inline : ∀ t ∈ l.finish, t.endsLine = false := by
    intro t among
    have shape := List.mem_map_of_mem (f := Token.shape) among
    rw [shapes] at shape
    obtain ⟨u, there, same⟩ := List.mem_map.mp shape
    have ends := congrArg Token.endsLine same
    rwa [Token.endsLine_mapPlaces, Token.endsLine_mapPlaces, content.inline u there, eq_comm]
      at ends
  have some : l.finish ≠ [] := by
    intro none
    rw [none, List.map_nil, eq_comm, List.map_eq_nil_iff] at shapes
    exact ne_nil_of_mem_tokenLines mem shapes
  rw [← displayRun_eq_intercalate]
  refine ⟨_, l.finish, tokenize_eq_ok_iff.mpr ⟨ls, _, scanned, run, rfl, rfl⟩, ?_, shapes⟩
  refine (tokenLines_append l.finish [] rfl).trans ?_
  rw [tokenLines_of_inline inline]
  simp [some, tokenLines]

/- An item without a token is displayed as nothing, and the line feed between the brackets is not
displayed. -/
theorem tokenize_display_call :
    ∃ ts line us line', tokenize "f(1,\n) + -x" = .ok ts ∧ line ∈ tokenLines ts ∧
      tokenize (" ".intercalate (line.map Token.display)) = .ok us ∧
      tokenLines us = [line'] ∧ line'.map Token.shape = line.map Token.shape := by
  have reads : (tokenize "f(1,\n) + -x").toOption.any fun ts => (tokenLines ts).length = 1 := by
    with_unfolding_all rfl
  cases read : tokenize "f(1,\n) + -x" with
  | error e =>
    rw [read] at reads
    cases reads
  | ok ts =>
    rw [read] at reads
    obtain ⟨line, single⟩ := List.length_eq_one_iff.mp (of_decide_eq_true reads)
    have mem : line ∈ tokenLines ts := single ▸ List.mem_singleton_self line
    obtain ⟨us, line', again, lines, same⟩ := tokenize_display read mem
    exact ⟨ts, line, us, line', rfl, mem, again, lines, same⟩

end ExprCheck
