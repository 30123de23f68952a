import ExprCheck.Proofs.Token.Grouping
/-! Tokens written flat. Brackets and commas come back out of the tokens that stand for them. Main
statement: the tokens of a sequence of lexemes, written flat, are the sequence itself without its
comments and without the line ends between brackets; nothing is lost, doubled or moved. -/
namespace ExprCheck

structure Flat where
  value : Lexeme
  span? : Option Span
deriving DecidableEq, Repr

/-! ## Lexemes -/

namespace Lexeme

def isPunctuation : Lexeme → Bool
  | comma | opening _ | closing _ => true
  | _ => false

/-- How many brackets are open behind a lexeme. -/
def depthBehind (depth : Nat) : Lexeme → Nat
  | opening _ => depth + 1
  | closing _ => depth - 1
  | _ => depth

/-- Comments are dropped, and so are line ends between brackets. -/
def isDropped (depth : Nat) : Lexeme → Bool
  | comment _ => true
  | newline => depth != 0
  | _ => false

end Lexeme

def Spanned.flat (l : Spanned Lexeme) : Flat :=
  ⟨l.value, if l.value.isPunctuation then none else some l.span⟩

/-- A sequence of lexemes without those that are dropped, where so many brackets are open. -/
def significant (depth : Nat) : List (Spanned Lexeme) → List (Spanned Lexeme)
  | [] => []
  | l :: rest =>
      if l.value.isDropped depth then significant (l.value.depthBehind depth) rest
      else l :: significant (l.value.depthBehind depth) rest

def depthBehind (depth : Nat) (ls : List (Spanned Lexeme)) : Nat :=
  ls.foldl (fun d l => l.value.depthBehind d) depth

theorem significant_append (depth : Nat) (ls ms : List (Spanned Lexeme)) :
    significant depth (ls ++ ms) =
      significant depth ls ++ significant (depthBehind depth ls) ms := by
  induction ls generalizing depth with
  | nil => rfl
  | cons l rest ih =>
    have below := ih (l.value.depthBehind depth)
    simp only [List.cons_append, significant, below]
    split <;> rfl

theorem depthBehind_append (depth : Nat) (ls ms : List (Spanned Lexeme)) :
    depthBehind depth (ls ++ ms) = depthBehind (depthBehind depth ls) ms :=
  List.foldl_append

theorem significant_snoc (ls : List (Spanned Lexeme)) (l : Spanned Lexeme) :
    significant 0 (ls ++ [l]) =
      significant 0 ls ++ if l.value.isDropped (depthBehind 0 ls) then [] else [l] := by
  rw [significant_append]
  rfl

theorem significant_sublist (depth : Nat) (ls : List (Spanned Lexeme)) :
    (significant depth ls).Sublist ls := by
  induction ls generalizing depth with
  | nil => exact .slnil
  | cons l rest ih =>
    unfold significant
    split
    · exact (ih _).cons l
    · exact (ih _).cons_cons l

/-! ## Tokens -/

/-- The lexeme that a leaf was; the end marker was none. -/
def Leaf.lexeme? : Leaf → Option Lexeme
  | str text => some (.str text)
  | number text => some (.number text)
  | name text => some (.name text)
  | op text => some (.op text)
  | dot => some .dot
  | comment text => some (.comment text)
  | newline => some .newline
  | endMarker => none

mutual

/-- A group is its brackets around its content, and a tuple its items with commas between them. -/
def Token.flat : Token → List Flat
  | .leaf l place => (l.lexeme?.map fun value => ⟨value, some place.span⟩).toList
  | .tuple items _ => flatItems items
  | .group bracket inner _ =>
      ⟨.opening bracket, none⟩ :: (flatRun inner ++ [⟨.closing bracket, none⟩])
termination_by structural t => t

def flatRun : List Token → List Flat
  | [] => []
  | t :: rest => t.flat ++ flatRun rest
termination_by structural run => run

def flatItems : List (List Token) → List Flat
  | [] => []
  | [item] => flatRun item
  | item :: rest => flatRun item ++ ⟨.comma, none⟩ :: flatItems rest
termination_by structural items => items

end

@[simp] theorem flatRun_append (run more : List Token) :
    flatRun (run ++ more) = flatRun run ++ flatRun more := by
  induction run with
  | nil => rfl
  | cons t rest ih => rw [List.cons_append, flatRun, flatRun, ih, List.append_assoc]

@[simp] theorem flatRun_singleton (t : Token) : flatRun [t] = t.flat :=
  List.append_nil _

theorem flatItems_snoc {items : List (List Token)} (some : items ≠ []) (item : List Token) :
    flatItems (items ++ [item]) = flatItems items ++ ⟨.comma, none⟩ :: flatRun item := by
  induction items with
  | nil => exact absurd rfl some
  | cons first rest ih =>
    cases rest with
    | nil => rfl
    | cons next rest =>
      have below := ih (List.cons_ne_nil next rest)
      simp only [List.cons_append] at below
      simp only [List.cons_append, flatItems, below, List.append_assoc]

theorem flat_leaf {value : Lexeme} {l : Leaf} (kept : value.leaf? = some l) (span : Span)
    (line : Nat) : (Token.leaf l ⟨span, line⟩).flat = [Spanned.flat ⟨value, span⟩] := by
  cases value <;> cases kept <;> rfl

/-! ## States -/

namespace Level

def flat (l : Level) : List Flat :=
  flatItems (l.items ++ [l.current])

theorem flat_push (l : Level) (t : Token) : (l.push t).flat = l.flat ++ t.flat := by
  unfold flat push
  by_cases first : l.items = []
  · simp [first, flatItems]
  · rw [flatItems_snoc first, flatItems_snoc first]
    simp

theorem flat_separate (l : Level) (comma : Place) :
    (l.separate comma).flat = l.flat ++ [⟨.comma, none⟩] := by
  unfold flat separate
  rw [flatItems_snoc (by simp)]
  rfl

theorem flat_finish {l : Level} (separated : l.Separated) : flatRun l.finish = l.flat := by
  unfold finish flat
  cases seen : l.comma with
  | none =>
    have noItems : l.items = [] := separated.mp seen
    simp [noItems, flatItems]
  | some comma => exact List.append_nil _

end Level

def Pending.flat (p : Pending) : List Flat :=
  ⟨.opening p.bracket, none⟩ :: p.level.flat

namespace Grouping

/-- All that has been read, with the brackets that are still open. -/
def flat (g : Grouping) : List Flat :=
  flatRun g.output ++ g.top.flat ++ g.pending.reverse.flatMap Pending.flat

theorem flat_mapLevel {f : Level → Level} {added : List Flat}
    (adds : ∀ l : Level, (f l).flat = l.flat ++ added) (g : Grouping) :
    (g.mapLevel f).flat = g.flat ++ added := by
  obtain ⟨top, pending, output, line⟩ := g
  cases pending with
  | nil => simp [mapLevel, flat, adds]
  | cons p rest => simp [mapLevel, flat, Pending.flat, adds]

theorem flat_push (g : Grouping) (t : Token) : (g.push t).flat = g.flat ++ t.flat :=
  flat_mapLevel (fun l => l.flat_push t) g

theorem length_mapLevel (g : Grouping) (f : Level → Level) :
    (g.mapLevel f).pending.length = g.pending.length := by
  unfold mapLevel
  split
  · rfl
  · rename_i p rest same
    simp [same]

theorem flat_flush {g : Grouping} (separated : g.Separated) : g.flush.flat = g.flat := by
  have nothing : Level.empty.flat = [] := rfl
  simp [flat, flush, Level.flat_finish separated.top, nothing]

theorem flat_newline {g : Grouping} (separated : g.Separated) (span : Span) :
    (g.newline span).flat =
      g.flat ++ if g.pending = [] then [⟨.newline, some span⟩] else [] := by
  have flushed := flat_flush separated
  obtain ⟨top, pending, output, line⟩ := g
  cases pending with
  | nil =>
    have nothing : Level.empty.flat = [] := rfl
    simp only [flat, flush, nothing, List.append_nil, List.reverse_nil, List.flatMap_nil]
      at flushed ⊢
    simp only [newline, flush, nothing, flatRun_append, flushed, if_true, List.append_nil,
      List.reverse_nil, List.flatMap_nil]
    rfl
  | cons p rest => simp [newline, flat]

theorem length_newline (g : Grouping) (span : Span) :
    (g.newline span).pending.length = g.pending.length := by
  obtain ⟨top, pending, output, line⟩ := g
  cases pending <;> rfl

/-- The sequence that has been read, and the state behind it. -/
structure Writes (done : List (Spanned Lexeme)) (g : Grouping) : Prop where
  separated : g.Separated
  depth : g.pending.length = depthBehind 0 done
  flat : g.flat = (significant 0 done).map Spanned.flat

theorem writes_step {done : List (Spanned Lexeme)} {l : Spanned Lexeme} {g g' : Grouping}
    (h : Writes done g) (step : g.Step l g') : Writes (done ++ [l]) g' := by
  have depthBehind' : depthBehind 0 (done ++ [l]) = l.value.depthBehind g.pending.length := by
    rw [depthBehind_append, ← h.depth]
    rfl
  have significant' : (significant 0 (done ++ [l])).map Spanned.flat =
      g.flat ++ if l.value.isDropped g.pending.length then [] else [l.flat] := by
    rw [significant_snoc, ← h.depth, List.map_append, ← h.flat]
    split <;> rfl
  refine ⟨h.separated.step step, ?_, ?_⟩
  · rw [depthBehind']
    cases step with
    | @leaf value span l kept =>
      have here : (g.push (.leaf l ⟨span, g.line⟩)).pending.length = g.pending.length :=
        length_mapLevel g _
      rw [here]
      cases value <;> cases kept <;> rfl
    | comment => rfl
    | newline => exact length_newline g _
    | comma => exact length_mapLevel g _
    | opening => rfl
    | closing innermost =>
      rename_i p rest span
      have outside : ({ g with pending := rest }.push (.group p.bracket p.level.finish
          ⟨p.place.span.join span, p.place.line⟩)).pending.length = rest.length :=
        length_mapLevel _ _
      simp [outside, innermost, Lexeme.depthBehind]
  · rw [significant']
    cases step with
    | @leaf value span l kept =>
      rw [flat_push, flat_leaf kept]
      cases value <;> cases kept <;> rfl
    | comment => exact (List.append_nil _).symm
    | newline =>
      rw [flat_newline h.separated]
      cases g.pending <;> rfl
    | comma => exact flat_mapLevel (fun l => l.flat_separate _) g
    | opening =>
      have nothing : Level.empty.flat = [] := rfl
      simp [flat, Pending.flat, nothing, Lexeme.isDropped, Spanned.flat, Lexeme.isPunctuation]
    | closing innermost =>
      rename_i p rest span
      have inner : flatRun p.level.finish = p.level.flat :=
        Level.flat_finish (h.separated.pending p (by simp [innermost]))
      rw [flat_push]
      simp [flat, Token.flat, Pending.flat, inner, innermost, Lexeme.isDropped, Spanned.flat,
        Lexeme.isPunctuation]

end Grouping

/-- Written flat, the tokens of a sequence of lexemes are the sequence without its comments and
without the line ends between brackets. Every lexeme but brackets and commas has kept its span. -/
theorem flatRun_of_matchBrackets {lexemes : List (Spanned Lexeme)} {eof : Nat} {ts : List Token}
    (accepted : matchBrackets lexemes eof = .ok ts) :
    flatRun ts = (significant 0 lexemes).map Spanned.flat := by
  obtain ⟨g, run, closed, rfl⟩ := matchBrackets_eq_ok_iff.mp accepted
  have writes : Grouping.Writes lexemes g := by
    refine Grouping.run_induction run ?_ fun done l g g' _ h step => Grouping.writes_step h step
    exact ⟨Grouping.separated_initial, rfl, rfl⟩
  have flushed : g.flush.flat = g.flat := Grouping.flat_flush writes.separated
  have nothing : Level.empty.flat = [] := rfl
  rw [← writes.flat, ← flushed, flatRun_append]
  simp [Grouping.flat, Grouping.flush, closed, nothing, Token.flat, Leaf.lexeme?]

/-- The lexemes of `f(1,` with a comment, a line feed, `)` and another line feed. -/
def callOverLines : List (Spanned Lexeme) :=
  [⟨.name "f", ⟨0, 1⟩⟩, ⟨.opening .paren, ⟨1, 2⟩⟩, ⟨.number "1", ⟨2, 3⟩⟩, ⟨.comma, ⟨3, 4⟩⟩,
    ⟨.comment "#", ⟨4, 5⟩⟩, ⟨.newline, ⟨5, 6⟩⟩, ⟨.closing .paren, ⟨6, 7⟩⟩, ⟨.newline, ⟨7, 8⟩⟩]

theorem flatRun_callOverLines :
    ∃ ts, matchBrackets callOverLines 8 = .ok ts ∧
      flatRun ts = [⟨.name "f", some ⟨0, 1⟩⟩, ⟨.opening .paren, none⟩, ⟨.number "1", some ⟨2, 3⟩⟩,
        ⟨.comma, none⟩, ⟨.closing .paren, none⟩, ⟨.newline, some ⟨7, 8⟩⟩] := by
  obtain ⟨ts, accepted⟩ : ∃ ts, matchBrackets callOverLines 8 = .ok ts := ⟨_, rfl⟩
  exact ⟨ts, accepted, flatRun_of_matchBrackets accepted⟩

end ExprCheck
