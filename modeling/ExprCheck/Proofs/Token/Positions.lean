import ExprCheck.Proofs.Lexeme.Layout
import ExprCheck.Proofs.Token.Made
/-! Where tokens lie. Main statement: leaves and groups lie exactly where the lexemes lie that they
are made of. The span of a tuple leaves out the commas behind its last token, but for its first
comma, and its line is that of its first lexeme that is no comma, even where the tuple starts
further up. -/
namespace ExprCheck

/-! ## Places -/

/-- The span is the smallest that covers the lexemes, and the line is the one that it starts on. -/
def Token.ExactlyPlaced (source : String) (t : Token) (own : List (Spanned Lexeme)) : Prop :=
  t.place.span.Hull (own.map Spanned.span) ∧ t.place.line = lineOf source t.place.span.start

/-- How many commas of a tuple, its first one apart, have only empty items behind them. -/
def missedCommas (items : List (List Token)) : Nat :=
  ((items.drop 2).reverse.takeWhile List.isEmpty).length

/-- The first lexeme that is no comma, or the first comma if there is no other. -/
def firstWord? (ls : List (Spanned Lexeme)) : Option (Spanned Lexeme) :=
  (ls.find? fun l => l.value ≠ .comma).or ls.head?

/-- The span of a tuple covers its lexemes but for the commas that it misses, so it is exact if and
only if it misses none; the line is that of the first lexeme that is no comma. -/
structure TuplePlaced (source : String) (items : List (List Token)) (place : Place)
    (own : List (Spanned Lexeme)) : Prop where
  span : ∃ kept missed, own = kept ++ missed ∧ (∀ l ∈ missed, l.value = .comma) ∧
    missed.length = missedCommas items ∧ place.span.Hull (kept.map Spanned.span) ∧
    (place.span.Hull (own.map Spanned.span) ↔ missed = [])
  line : ∃ l, firstWord? own = some l ∧ place.line = lineOf source l.span.start

def Token.Placed (source : String) (t : Token) (own : List (Spanned Lexeme)) : Prop :=
  match t with
  | .tuple items place => TuplePlaced source items place own
  | .leaf .. | .group .. => t.ExactlyPlaced source own

/-! ## Levels -/

structure Token.Piece (source : String) (t : Token) (own : List (Spanned Lexeme)) : Prop where
  made : t.MadeOf (Token.Placed source) own
  hull : t.place.span.Hull (own.map Spanned.span)
  head : ∃ l rest, own = l :: rest ∧ l.value ≠ .comma ∧ t.place.line = lineOf source l.span.start

variable {source : String}

theorem InTurn.hull_foldl {run : List Token} {own : List (Spanned Lexeme)}
    (h : InTurn (Token.Piece source) run own) {s : Span} {ps : List Span} (start : s.Hull ps) :
    ((run.map fun t => t.place.span).foldl Span.join s).Hull (ps ++ own.map Spanned.span) := by
  induction h generalizing s ps with
  | nil => simpa using start
  | cons first rest ih =>
    rw [List.map_append, ← List.append_assoc]
    exact ih (start.join first.hull)

theorem InTurn.eq_nil_iff {run : List Token} {own : List (Spanned Lexeme)}
    (h : InTurn (Token.Piece source) run own) : own = [] ↔ run = [] := by
  cases h with
  | nil => simp
  | cons first rest =>
    obtain ⟨l, more, rfl, -⟩ := first.head
    simp

theorem InTurn.line_head {run : List Token} {own : List (Spanned Lexeme)}
    (h : InTurn (Token.Piece source) run own) :
    (run.head?.map fun t => t.place.line) =
      (own.find? fun l => l.value ≠ .comma).map fun l => lineOf source l.span.start := by
  cases h with
  | nil => rfl
  | cons first rest =>
    obtain ⟨l, more, rfl, other, line⟩ := first.head
    simp [other, line]

theorem BehindCommas.line_head {items : List (List Token)} {ms : List (Spanned Lexeme)}
    (h : BehindCommas (Token.Piece source) items ms) :
    (items.flatten.head?.map fun t => t.place.line) =
      (ms.find? fun l => l.value ≠ .comma).map fun l => lineOf source l.span.start := by
  induction h with
  | nil => rfl
  | @snoc items item c ms ls before comma last ih =>
    rw [List.flatten_append, List.flatten_singleton, List.head?_append, List.find?_append,
      List.find?_cons_of_neg (by simp [comma]), Option.map_or, Option.map_or, ih, last.line_head]

/-- What the span of a tuple covers behind its first comma. -/
structure Reach (source : String) (items : List (List Token)) (c : Spanned Lexeme)
    (kept missed inner : List (Spanned Lexeme)) : Prop where
  comma : c.value = .comma
  commas : ∀ l ∈ missed, l.value = .comma
  length : missed.length = (items.tail.reverse.takeWhile List.isEmpty).length
  inTurn : InTurn (Token.Piece source) items.flatten inner
  inside : inner ⊆ kept
  reaches : ∀ l ∈ kept, ∃ m ∈ inner, l.span.stop ≤ m.span.stop

namespace Reach

variable {items : List (List Token)} {item : List Token} {c c' : Spanned Lexeme}
  {kept missed inner ls : List (Spanned Lexeme)}

theorem first (comma : c.value = .comma) (last : InTurn (Token.Piece source) item ls) :
    Reach source [item] c ls [] ls where
  comma := comma
  commas := nofun
  length := rfl
  inTurn := by simpa using last
  inside _ mem := mem
  reaches l mem := ⟨l, mem, Nat.le_refl _⟩

theorem empty (h : Reach source items c kept missed inner) (some : items ≠ [])
    (comma : c'.value = .comma) : Reach source (items ++ [[]]) c kept (missed ++ [c']) inner where
  comma := h.comma
  commas := List.forall_mem_append.mpr ⟨h.commas, List.forall_mem_singleton.mpr comma⟩
  length := by
    rw [List.tail_append_of_ne_nil some]
    simp [h.length]
  inTurn := by simpa using h.inTurn
  inside := h.inside
  reaches := h.reaches

theorem filled (h : Reach source items c kept missed inner) (some : items ≠ [])
    (last : InTurn (Token.Piece source) item ls) (token : item ≠ [])
    (order : InOrder (c :: (kept ++ missed) ++ c' :: ls)) :
    Reach source (items ++ [item]) c (kept ++ missed ++ c' :: ls) [] (inner ++ ls) where
  comma := h.comma
  commas := nofun
  length := by
    rw [List.tail_append_of_ne_nil some]
    simp [token]
  inTurn := by
    rw [List.flatten_append, List.flatten_singleton]
    exact h.inTurn.append last
  inside := by
    refine List.append_subset.mpr ⟨fun l mem => ?_, fun l mem => ?_⟩
    · simp [h.inside mem]
    · simp [mem]
  reaches l mem := by
    have lexeme : ls ≠ [] := fun none => token (last.eq_nil_iff.mp none)
    obtain ⟨front, final, rfl⟩ : ∃ front final, ls = front ++ [final] :=
      ⟨_, _, (List.dropLast_concat_getLast lexeme).symm⟩
    have whole : kept ++ missed ++ c' :: (front ++ [final]) =
        (kept ++ missed ++ c' :: front) ++ [final] := by
      simp
    have behind : InOrder (kept ++ missed ++ c' :: (front ++ [final])) :=
      order.sublist (List.sublist_cons_self c _)
    rw [whole] at mem behind
    exact ⟨final, by simp, behind.stop_le_last l mem⟩

theorem hull (h : Reach source items c kept missed inner) (order : InOrder (ls ++ c :: kept))
    {span : Span} (hull : span.Hull (c.span :: (ls ++ inner).map Spanned.span)) :
    span.Hull ((ls ++ c :: kept).map Spanned.span) := by
  obtain ⟨coversComma, coversWords⟩ := List.forall_mem_cons.mp hull.covers
  have coversWords := List.forall_mem_map.mp coversWords
  refine hull.widen ?_ (List.forall_mem_map.mpr fun l mem => ?_)
  · have words : ls ++ inner ⊆ ls ++ c :: kept :=
      List.append_subset.mpr ⟨List.subset_append_left .., fun l mem => by simp [h.inside mem]⟩
    exact List.cons_subset.mpr ⟨by simp, List.map_subset _ words⟩
  rcases List.mem_append.mp mem with inFirst | behind
  · exact coversWords l (List.mem_append_left _ inFirst)
  rcases List.mem_cons.mp behind with rfl | behind
  · exact coversComma
  · obtain ⟨m, inner, reaches⟩ := h.reaches l behind
    rw [← List.singleton_append, ← List.append_assoc] at order
    have after := order.stop_le_start (l := c) (by simp) behind
    have wide := order.wide c (by simp)
    have covered := coversWords m (List.mem_append_right _ inner)
    omega

end Reach

theorem BehindCommas.reach {items : List (List Token)} {ms : List (Spanned Lexeme)}
    (h : BehindCommas (Token.Piece source) items ms) (some : items ≠ []) (order : InOrder ms) :
    ∃ c kept missed inner, ms = c :: (kept ++ missed) ∧
      Reach source items c kept missed inner := by
  induction h with
  | nil => exact absurd rfl some
  | @snoc items item c' ms ls before comma last ih =>
    by_cases alone : items = []
    · subst alone
      obtain rfl := before.eq_nil
      exact ⟨c', ls, [], ls, by simp, .first comma last⟩
    · obtain ⟨c, kept, missed, inner, rfl, reach⟩ :=
        ih alone (order.sublist (List.sublist_append_left ..))
      by_cases empty : item = []
      · subst empty
        obtain rfl := last.eq_nil_iff.mpr rfl
        exact ⟨c, kept, missed ++ [c'], inner, by simp, reach.empty alone comma⟩
      · exact ⟨c, _, [], _, by simp, reach.filled alone last empty order⟩

/-- What has been read on a level, a comma or none. -/
inductive Level.Holds (source : String) : Level → List (Spanned Lexeme) → Prop
  | run {run : List Token} {own : List (Spanned Lexeme)}
      (reads : InTurn (Token.Piece source) run own) : Holds source ⟨[], run, none⟩ own
  | items {first : List Token} {behind : List (List Token)} {current : List Token}
      {c : Spanned Lexeme} {ls ms : List (Spanned Lexeme)}
      (start : InTurn (Token.Piece source) first ls)
      (rest : BehindCommas (Token.Piece source) (behind ++ [current]) (c :: ms)) :
      Holds source ⟨first :: behind, current, some ⟨c.span, lineOf source c.span.start⟩⟩
        (ls ++ c :: ms)

namespace Level

variable {l : Level} {own : List (Spanned Lexeme)}

theorem holds_empty : empty.Holds source [] :=
  .run .nil

theorem Holds.push (h : l.Holds source own) {t : Token} {ls : List (Spanned Lexeme)}
    (piece : t.Piece source ls) : (l.push t).Holds source (own ++ ls) := by
  cases h with
  | run reads => exact .run (reads.append (.singleton piece))
  | items start rest =>
    rw [List.append_assoc]
    exact .items start (rest.push piece)

theorem Holds.separate (h : l.Holds source own) (span : Span) :
    (l.separate ⟨span, lineOf source span.start⟩).Holds source (own ++ [⟨.comma, span⟩]) := by
  cases h with
  | run reads =>
    have first : BehindCommas (Token.Piece source) ([] ++ [[]]) ([] ++ [⟨.comma, span⟩]) :=
      .snoc .nil rfl .nil
    exact .items reads first
  | items start rest =>
    rw [List.append_assoc]
    exact .items start (.snoc rest rfl .nil)

section Tuple

variable {first : List Token} {items : List (List Token)} {c : Spanned Lexeme}
  {ls ms : List (Spanned Lexeme)}

theorem span_tuple (start : InTurn (Token.Piece source) first ls)
    (rest : BehindCommas (Token.Piece source) items (c :: ms)) (some : items ≠ [])
    (order : InOrder (ls ++ c :: ms)) {span : Span}
    (spans : span = ((first :: items).flatten.map fun t => t.place.span).foldl Span.join c.span) :
    ∃ kept missed, ls ++ c :: ms = kept ++ missed ∧ (∀ l ∈ missed, l.value = .comma) ∧
      missed.length = missedCommas (first :: items) ∧ span.Hull (kept.map Spanned.span) ∧
      (span.Hull ((ls ++ c :: ms).map Spanned.span) ↔ missed = []) := by
  obtain ⟨c', kept, missed, inner, same, reach⟩ :=
    rest.reach some (order.sublist (List.sublist_append_right ..))
  obtain ⟨rfl, rfl⟩ := List.cons.inj same
  have whole : ls ++ c :: (kept ++ missed) = (ls ++ c :: kept) ++ missed := by simp
  rw [whole] at order ⊢
  have hull : span.Hull (c.span :: (ls ++ inner).map Spanned.span) := by
    rw [spans, List.flatten_cons]
    exact (start.append reach.inTurn).hull_foldl (Span.hull_singleton c.span)
  have widened := reach.hull (order.sublist (List.sublist_append_left ..)) hull
  refine ⟨ls ++ c :: kept, missed, rfl, reach.commas, ?_, widened, order.hull_append_iff widened⟩
  rw [reach.length, missedCommas]
  simp

theorem line_tuple (start : InTurn (Token.Piece source) first ls)
    (rest : BehindCommas (Token.Piece source) items (c :: ms)) {line : Nat}
    (lines : line = ((first :: items).flatten.head?.map fun t => t.place.line).getD
      (lineOf source c.span.start)) :
    ∃ l, firstWord? (ls ++ c :: ms) = some l ∧ line = lineOf source l.span.start := by
  have heads : ((first :: items).flatten.head?.map fun t => t.place.line) =
      ((ls ++ c :: ms).find? fun l => l.value ≠ .comma).map fun l =>
        lineOf source l.span.start := by
    rw [List.flatten_cons, List.head?_append, List.find?_append, Option.map_or, Option.map_or,
      start.line_head, rest.line_head]
  cases word : (ls ++ c :: ms).find? fun l => l.value ≠ .comma with
  | some l =>
    rw [word] at heads
    exact ⟨l, by rw [firstWord?, word, Option.some_or], by rw [lines, heads]; rfl⟩
  | none =>
    rw [word, Option.map_none, Option.map_eq_none_iff, List.head?_eq_none_iff, List.flatten_cons,
      List.append_eq_nil_iff] at heads
    obtain rfl := start.eq_nil_iff.mpr heads.1
    exact ⟨c, by rw [firstWord?, word, Option.none_or]; rfl, by simp [lines, heads.1, heads.2]⟩

end Tuple

/-- A finished level is made of what has been read on it. -/
theorem Holds.finish (h : l.Holds source own) (order : InOrder own) :
    InTurn (Token.MadeOf (Token.Placed source)) l.finish own := by
  cases h with
  | run reads => exact reads.imp fun _ _ piece => piece.made
  | @items first behind current c ls ms start rest =>
    refine .singleton (.tuple (start.imp fun _ _ piece => piece.made)
      (rest.imp fun _ _ piece => piece.made) ?_)
    refine ⟨span_tuple start rest (by simp) order rfl, line_tuple start rest ?_⟩
    cases filled : (first :: (behind ++ [current])).flatten with
    | nil => simp [filled]
    | cons t more => simp [filled]

end Level

/-! ## States -/

structure Pending.Holds (source : String) (p : Pending) (o : Spanned Lexeme)
    (ls : List (Spanned Lexeme)) : Prop where
  opens : o.value = .opening p.bracket
  place : p.place = ⟨o.span, lineOf source o.span.start⟩
  level : p.level.Holds source ls

inductive Pending.AllHold (source : String) : List Pending → List (Spanned Lexeme) → Prop
  | nil : Pending.AllHold source [] []
  | cons {p : Pending} {rest : List Pending} {o : Spanned Lexeme}
      {ls below : List (Spanned Lexeme)} (inner : p.Holds source o ls)
      (outer : Pending.AllHold source rest below) :
      Pending.AllHold source (p :: rest) (below ++ o :: ls)

namespace Grouping

variable {g g' : Grouping} {ls added : List (Spanned Lexeme)}

structure Holds (source : String) (g : Grouping) (ls : List (Spanned Lexeme)) : Prop where
  parts : ∃ out top below, ls = out ++ (top ++ below) ∧
    InTurn (Token.MadeOf (Token.Placed source)) g.output out ∧ g.top.Holds source top ∧
    Pending.AllHold source g.pending below

theorem holds_initial : initial.Holds source [] :=
  ⟨[], [], [], rfl, .nil, .run .nil, .nil⟩

theorem Holds.mapLevel (h : g.Holds source ls) {f : Level → Level}
    (reads : ∀ l own, Level.Holds source l own → (f l).Holds source (own ++ added)) :
    (g.mapLevel f).Holds source (ls ++ added) := by
  obtain ⟨top, pending, output, line⟩ := g
  obtain ⟨out, own, below, rfl, holdsOut, holdsTop, holdsBelow⟩ := h.parts
  cases holdsBelow with
  | nil => exact ⟨out, own ++ added, [], by simp, holdsOut, reads top own holdsTop, .nil⟩
  | @cons p rest o ls below inner outer =>
    refine ⟨out, own, below ++ o :: (ls ++ added), by simp, holdsOut, holdsTop, .cons ?_ outer⟩
    exact ⟨inner.opens, inner.place, reads p.level ls inner.level⟩

theorem Holds.push (h : g.Holds source ls) {t : Token} (piece : t.Piece source added) :
    (g.push t).Holds source (ls ++ added) :=
  h.mapLevel fun _ _ level => level.push piece

theorem Holds.flush (h : g.Holds source ls) (order : InOrder ls) (closed : g.pending = []) :
    InTurn (Token.MadeOf (Token.Placed source)) g.flush.output ls := by
  obtain ⟨out, own, below, rfl, holdsOut, holdsTop, holdsBelow⟩ := h.parts
  rw [closed] at holdsBelow
  cases holdsBelow
  rw [List.append_nil] at order ⊢
  exact holdsOut.append (holdsTop.finish (order.sublist (List.sublist_append_right ..)))

theorem Holds.newline {span : Span} (h : g.Holds source ls) (order : InOrder ls)
    (line : g.line = lineOf source span.start) :
    (g.newline span).Holds source
      (ls ++ if g.pending = [] then [⟨.newline, span⟩] else []) := by
  have feed : (Token.leaf .newline ⟨span, g.line⟩).MadeOf (Token.Placed source)
      [⟨.newline, span⟩] :=
    .leaf rfl ⟨Span.hull_singleton span, line⟩
  cases brackets : g.pending with
  | nil =>
    have lines := (h.flush order brackets).append (.singleton feed)
    obtain ⟨top, pending, output, line⟩ := g
    subst brackets
    exact ⟨_, [], [], by simp, lines, .run .nil, .nil⟩
  | cons p rest =>
    obtain ⟨top, pending, output, line⟩ := g
    subst brackets
    rw [if_neg (List.cons_ne_nil p rest), List.append_nil]
    exact ⟨h.parts⟩

end Grouping

/-! ## Pieces -/

theorem piece_leaf {value : Lexeme} {l : Leaf} (kept : value.leaf? = some l) (span : Span) :
    (Token.leaf l ⟨span, lineOf source span.start⟩).Piece source [⟨value, span⟩] where
  made := by
    have same : l.lexeme? = some value := by
      cases value <;> cases kept <;> rfl
    exact .leaf same ⟨Span.hull_singleton span, rfl⟩
  hull := Span.hull_singleton span
  head := by
    refine ⟨_, [], rfl, ?_, rfl⟩
    rintro rfl
    cases kept

theorem piece_group {p : Pending} {o c : Spanned Lexeme} {ls : List (Spanned Lexeme)}
    (inner : p.Holds source o ls) (closes : c.value = .closing p.bracket)
    (order : InOrder (o :: (ls ++ [c]))) :
    (Token.group p.bracket p.level.finish ⟨p.place.span.join c.span, p.place.line⟩).Piece source
      (o :: (ls ++ [c])) := by
  obtain ⟨opens, place, level⟩ := inner
  have behind := (List.pairwise_cons.mp order.apart).1
  have orderBehind : InOrder (ls ++ [c]) := order.sublist (List.sublist_cons_self ..)
  have wide := order.wide o (by simp)
  have wide' := order.wide c (by simp)
  have apart := behind c (by simp)
  have hull : (o.span.join c.span).Hull ((o :: (ls ++ [c])).map Spanned.span) := by
    refine ((Span.hull_singleton o.span).join (Span.hull_singleton c.span)).widen (by simp) ?_
    refine List.forall_mem_map.mpr fun l mem => ?_
    simp only [Span.join]
    rcases List.mem_cons.mp mem with rfl | mem
    · omega
    have after := behind l mem
    rcases List.mem_append.mp mem with inside | last
    · have ahead := orderBehind.stop_le_start inside (List.mem_singleton.mpr rfl)
      omega
    · rw [List.mem_singleton.mp last]
      omega
  have content := level.finish (order.sublist ((List.sublist_append_left ls [c]).cons o))
  have start : (o.span.join c.span).start = o.span.start := by
    simp only [Span.join]
    omega
  rw [place]
  refine ⟨.group opens closes content ⟨hull, ?_⟩, hull, o, ls ++ [c], rfl, ?_, rfl⟩
  · exact congrArg (lineOf source) start.symm
  · simp [opens]

/-! ## Runs -/

namespace Grouping

variable {g g' : Grouping} {done : List (Spanned Lexeme)} {l : Spanned Lexeme}

theorem Holds.step (h : g.Holds source (significant 0 done))
    (depth : g.pending.length = depthBehind 0 done) (line : g.line = lineOf source l.span.start)
    (order : InOrder (done ++ [l])) (step : g.Step l g') :
    g'.Holds source (significant 0 (done ++ [l])) := by
  have order := order.sublist (significant_sublist 0 (done ++ [l]))
  rw [significant_snoc, ← depth] at order ⊢
  have orderDone := order.sublist (List.sublist_append_left ..)
  cases step with
  | @leaf value span l kept =>
    have piece : (Token.leaf l ⟨span, g.line⟩).Piece source [⟨value, span⟩] :=
      line ▸ piece_leaf kept span
    have dropped : value.isDropped g.pending.length = false := by
      cases value <;> cases kept <;> rfl
    rw [dropped]
    exact h.push piece
  | comment => simpa [Lexeme.isDropped] using h
  | newline =>
    have after := h.newline orderDone line
    cases brackets : g.pending with
    | nil => simpa [Lexeme.isDropped, brackets] using after
    | cons p rest => simpa [Lexeme.isDropped, brackets] using after
  | @comma span =>
    rw [line]
    exact h.mapLevel fun _ _ level => level.separate span
  | @opening bracket span =>
    obtain ⟨out, top, below, parts, holdsOut, holdsTop, holdsBelow⟩ := h.parts
    refine ⟨out, top, below ++ [⟨.opening bracket, span⟩], by simp [parts, Lexeme.isDropped],
      holdsOut, holdsTop, ?_⟩
    exact .cons ⟨rfl, congrArg (Place.mk span) line, Level.holds_empty⟩ holdsBelow
  | @closing p rest span innermost =>
    obtain ⟨out, top, below, parts, holdsOut, holdsTop, holdsBelow⟩ := h.parts
    rw [innermost] at holdsBelow
    cases holdsBelow with
    | @cons _ _ o ls below inner outer =>
      have outside : Holds source { g with pending := rest } (out ++ (top ++ below)) :=
        ⟨out, top, below, rfl, holdsOut, holdsTop, outer⟩
      -- The brackets and what stands between them become one piece of the level outside.
      have whole : significant 0 done ++ [⟨.closing p.bracket, span⟩] =
          out ++ (top ++ below) ++ o :: (ls ++ [⟨.closing p.bracket, span⟩]) := by
        simp [parts]
      have kept : (Lexeme.closing p.bracket).isDropped g.pending.length = false := rfl
      rw [kept, if_neg Bool.false_ne_true, whole] at order ⊢
      exact outside.push (piece_group inner rfl (order.sublist (List.sublist_append_right ..)))

structure Follows (source : String) (done : List (Spanned Lexeme)) (g : Grouping) : Prop where
  writes : Writes done g
  line : g.line = 1 + done.countP fun l => l.value = .newline
  holds : LaidOut source done → g.Holds source (significant 0 done)

theorem follows_initial : initial.Follows source [] :=
  ⟨⟨separated_initial, rfl, rfl⟩, rfl, fun _ => holds_initial⟩

theorem Follows.step (h : g.Follows source done) (step : g.Step l g') :
    g'.Follows source (done ++ [l]) where
  writes := writes_step h.writes step
  line := by
    rw [line_step (step_eq_ok_iff.mpr step), h.line, List.countP_append, List.countP_singleton]
    simp [Nat.add_assoc]
  holds laidOut := by
    have line : lineOf source l.span.start = done.countP (fun l => l.value = .newline) + 1 :=
      laidOut.line done l [] rfl
    rw [Nat.add_comm, ← h.line] at line
    exact (h.holds laidOut.front).step h.writes.depth line.symm laidOut.toInOrder step

end Grouping

theorem made_of_tokenize {source : String} {ts : List Token} (read : tokenize source = .ok ts) :
    ∃ ls body line, Lexeme.scan source = .ok ls ∧
      ts = body ++ [.leaf .endMarker ⟨.point source.utf8ByteSize, line⟩] ∧
      InOrder (significant 0 ls) ∧
      InTurn (Token.MadeOf (Token.Placed source)) body (significant 0 ls) := by
  obtain ⟨ls, scanned, accepted⟩ := bind_eq_ok_iff.mp read
  obtain ⟨g, run, closed, rfl⟩ := matchBrackets_eq_ok_iff.mp accepted
  have follows : g.Follows source ls :=
    Grouping.run_induction run Grouping.follows_initial fun _ _ _ _ _ h step => h.step step
  have laidOut := laidOut_of_scan scanned
  have order := laidOut.toInOrder.sublist (significant_sublist 0 ls)
  exact ⟨ls, g.flush.output, g.line, scanned, rfl, order,
    (follows.holds laidOut).flush order closed⟩

/-- The tokens of a source but for the end marker are made of its lexemes, without those that are
dropped, and all tokens at any depth are placed as `Token.Placed` says: leaves and groups exactly,
tuples but for the commas that their spans miss and for the line. -/
theorem placed_of_tokenize (source : String) (ts : List Token) (read : tokenize source = .ok ts) :
    ∃ ls body finish, Lexeme.scan source = .ok ls ∧ ts = body ++ [.leaf .endMarker finish] ∧
      InTurn (Token.MadeOf (Token.Placed source)) body (significant 0 ls) := by
  obtain ⟨ls, body, line, scanned, whole, -, made⟩ := made_of_tokenize read
  exact ⟨ls, body, _, scanned, whole, made⟩

theorem placed_tupleOverLines :
    ∃ ls body finish, Lexeme.scan "f(1,\n2,,)\nx" = .ok ls ∧
      tokenize "f(1,\n2,,)\nx" = .ok (body ++ [.leaf .endMarker finish]) ∧
      InTurn (Token.MadeOf (Token.Placed "f(1,\n2,,)\nx")) body (significant 0 ls) := by
  have read : tokenize "f(1,\n2,,)\nx" = .ok
      [.leaf (.name "f") ⟨⟨0, 1⟩, 1⟩,
        .group .paren [.tuple [[.leaf (.number "1") ⟨⟨2, 3⟩, 1⟩],
          [.leaf (.number "2") ⟨⟨5, 6⟩, 2⟩], [], []] ⟨⟨2, 6⟩, 1⟩] ⟨⟨1, 9⟩, 1⟩,
        .leaf .newline ⟨⟨9, 10⟩, 2⟩, .leaf (.name "x") ⟨⟨10, 11⟩, 3⟩,
        .leaf .endMarker ⟨⟨11, 11⟩, 3⟩] := by
    with_unfolding_all rfl
  obtain ⟨ls, body, finish, scanned, parts, placed⟩ := placed_of_tokenize _ _ read
  exact ⟨ls, body, finish, scanned, parts ▸ read, placed⟩

/-- A tuple that starts with a comma lies on the line of its first item all the same. -/
theorem not_exactlyPlaced_leadingComma :
    ∃ ls body finish, Lexeme.scan "(,\n1,)" = .ok ls ∧
      tokenize "(,\n1,)" = .ok (body ++ [.leaf .endMarker finish]) ∧
      ¬ InTurn (Token.MadeOf (Token.ExactlyPlaced "(,\n1,)")) body (significant 0 ls) := by
  let tuple : Token := .tuple [[], [.leaf (.number "1") ⟨⟨3, 4⟩, 2⟩], []] ⟨⟨1, 4⟩, 2⟩
  refine ⟨[⟨.opening .paren, ⟨0, 1⟩⟩, ⟨.comma, ⟨1, 2⟩⟩, ⟨.newline, ⟨2, 3⟩⟩, ⟨.number "1", ⟨3, 4⟩⟩,
    ⟨.comma, ⟨4, 5⟩⟩, ⟨.closing .paren, ⟨5, 6⟩⟩], [.group .paren [tuple] ⟨⟨0, 6⟩, 1⟩],
    ⟨⟨6, 6⟩, 2⟩, by with_unfolding_all rfl, by with_unfolding_all rfl, fun placed => ?_⟩
  obtain ⟨own, group⟩ := placed.of_mem _ (List.mem_singleton.mpr rfl)
  have inside : tuple.Within (.group .paren [tuple] ⟨⟨0, 6⟩, 1⟩) :=
    .inner (List.mem_singleton.mpr rfl) .self
  obtain ⟨own, -, line⟩ := group.within inside
  have starts : lineOf "(,\n1,)" 1 = 1 := by decide
  exact absurd (line.trans starts) (by decide)

end ExprCheck
