import ExprCheck.Proofs.Token.Balance
import ExprCheck.Proofs.Token.Made
/-! Where tuples stand. `Level.Reads` says which lexemes have been read on a level, those of closed
brackets included. Main statement: a tuple is alone in its run, which is a line or the content of
brackets; it has one item more than its run has commas outside further brackets; its items hold no
tuple; and nothing that ends a line or is dropped stands inside another token. -/
namespace ExprCheck

/-! ## Outside brackets -/

/-- How often the lexeme stands outside all brackets, if so many are open in front. -/
def countOutside (value : Lexeme) (depth : Nat) : List Lexeme → Nat
  | [] => 0
  | l :: rest =>
      (if depth = 0 ∧ l = value then 1 else 0) + countOutside value (l.depthBehind depth) rest

theorem countOutside_append (value : Lexeme) (depth : Nat) (ls ms : List Lexeme) :
    countOutside value depth (ls ++ ms) = countOutside value depth ls +
      countOutside value (ls.foldl Lexeme.depthBehind depth) ms := by
  induction ls generalizing depth with
  | nil => exact (Nat.zero_add _).symm
  | cons l rest ih =>
    have below := ih (l.depthBehind depth)
    simp only [List.cons_append, countOutside, below, Nat.add_assoc]
    rfl

theorem Lexeme.depthBehind_of_not_isBracket {value : Lexeme} (plain : value.isBracket = false)
    (depth : Nat) : value.depthBehind depth = depth := by
  cases value <;> first | rfl | cases plain

namespace Balanced

variable {ls : List Lexeme}

theorem depthBehind_eq (h : Balanced ls) (depth : Nat) :
    ls.foldl Lexeme.depthBehind depth = depth := by
  induction h generalizing depth with
  | nil => rfl
  | plain notBracket _ ih =>
    rw [List.foldl_cons, Lexeme.depthBehind_of_not_isBracket notBracket, ih]
  | @pair bracket inside behind _ _ within below =>
    rw [List.foldl_cons, List.foldl_append, within, List.foldl_cons, below]
    rfl

theorem countOutside_inside (h : Balanced ls) (value : Lexeme) (depth : Nat) :
    countOutside value (depth + 1) ls = 0 := by
  induction h generalizing depth with
  | nil => rfl
  | plain notBracket _ ih =>
    rw [countOutside, Lexeme.depthBehind_of_not_isBracket notBracket, ih]
    rfl
  | @pair bracket inside behind inner _ within below =>
    have opens : (Lexeme.opening bracket).depthBehind (depth + 1) = depth + 1 + 1 := rfl
    have closes : (Lexeme.closing bracket).depthBehind (depth + 1 + 1) = depth + 1 := rfl
    rw [countOutside, opens, countOutside_append, within, inner.depthBehind_eq, countOutside,
      closes, below]
    rfl

theorem countOutside_behind (h : Balanced ls) (value : Lexeme) (more : List Lexeme) :
    countOutside value 0 (ls ++ more) = countOutside value 0 ls + countOutside value 0 more := by
  rw [countOutside_append, h.depthBehind_eq]

theorem countOutside_pair (h : Balanced ls) {value : Lexeme} (other : value.isBracket = false)
    (bracket : Bracket) :
    countOutside value 0 (.opening bracket :: (ls ++ [.closing bracket])) = 0 := by
  have opening : Lexeme.opening bracket ≠ value := by
    rintro rfl
    cases other
  have closing : Lexeme.closing bracket ≠ value := by
    rintro rfl
    cases other
  have opens : (Lexeme.opening bracket).depthBehind 0 = 0 + 1 := rfl
  rw [countOutside, opens, countOutside_append, h.countOutside_inside, h.depthBehind_eq]
  simp [countOutside, opening]

end Balanced

/-! ## Shapes -/

namespace Token

def isTuple : Token → Bool
  | tuple .. => true
  | leaf .. | group .. => false

def isMark : Token → Bool
  | leaf (.comment _) _ | leaf .newline _ | leaf .endMarker _ => true
  | leaf .. | tuple .. | group .. => false

def IsPiece (t : Token) : Prop :=
  t.isTuple = false ∧ t.isMark = false

end Token

/-- The run of tokens has the shape that the commas among its lexemes give it. -/
structure RunShape (inside : List Lexeme) (run : List Token) : Prop where
  alone : ∀ items place, .tuple items place ∈ run → run = [.tuple items place]
  length : ∀ items place, .tuple items place ∈ run →
    items.length = countOutside .comma 0 inside + 1
  exists_iff : (∃ t ∈ run, t.isTuple) ↔ 0 < countOutside .comma 0 inside
  marks : ∀ t ∈ run, t.isMark = false

theorem runShape_of_pieces {inside : List Lexeme} {run : List Token}
    (none : countOutside .comma 0 inside = 0) (pieces : ∀ t ∈ run, t.IsPiece) :
    RunShape inside run := by
  have tupleless (items : List (List Token)) (place : Place) : .tuple items place ∉ run := by
    intro mem
    cases (pieces _ mem).1
  refine ⟨fun _ _ mem => absurd mem (tupleless _ _), fun _ _ mem => absurd mem (tupleless _ _), ?_,
    fun t mem => (pieces t mem).2⟩
  constructor
  · rintro ⟨t, mem, isTuple⟩
    cases (pieces t mem).1.symm.trans isTuple
  · omega

theorem runShape_of_tuple {inside : List Lexeme} {items : List (List Token)} (place : Place)
    (several : 2 ≤ items.length) (length : items.length = countOutside .comma 0 inside + 1) :
    RunShape inside [.tuple items place] := by
  constructor
  · intro items place mem
    rw [List.mem_singleton.mp mem]
  · intro items place mem
    cases List.mem_singleton.mp mem
    exact length
  · constructor
    · omega
    · exact fun _ => ⟨_, List.mem_singleton.mpr rfl, rfl⟩
  · exact List.forall_mem_singleton.mpr rfl

/-- The group is made of two brackets among the lexemes that match, and of what they enclose. -/
def Encloses (ls : List (Spanned Lexeme)) (bracket : Bracket) (inner : List Token)
    (place : Place) : Prop :=
  ∃ before o inside c after, ls = before ++ o :: (inside ++ c :: after) ∧
    o.value = .opening bracket ∧ c.value = .closing bracket ∧
    Balanced (inside.map Spanned.value) ∧ place.span = o.span.join c.span ∧
    RunShape (inside.map Spanned.value) inner

/-- The token has its shape among the lexemes, but for the tokens deeper in it. -/
def Token.ShapedIn (ls : List (Spanned Lexeme)) : Token → Prop
  | leaf .. => True
  | tuple items _ => 2 ≤ items.length ∧ ∀ item ∈ items, ∀ t ∈ item, t.IsPiece
  | group bracket inner place => Encloses ls bracket inner place

theorem Token.shapedIn_of_leaf {ls : List (Spanned Lexeme)} {l : Leaf} {place : Place} {t : Token}
    (inside : t.Within (.leaf l place)) : t.ShapedIn ls := by
  cases inside
  trivial

theorem Token.ShapedIn.extend {ls : List (Spanned Lexeme)} {t : Token} (h : t.ShapedIn ls)
    (front back : List (Spanned Lexeme)) : t.ShapedIn (front ++ (ls ++ back)) := by
  cases t with
  | leaf => trivial
  | tuple => exact h
  | group bracket inner place =>
    obtain ⟨before, o, inside, c, after, rfl, enclosed⟩ := h
    exact ⟨front ++ before, o, inside, c, after ++ back, by simp, enclosed⟩

/-- The lexemes of a line, and the tokens that they become. -/
structure LineShape (inside : List Lexeme) (run : List Token) : Prop where
  balanced : Balanced inside
  unbroken : countOutside .newline 0 inside = 0
  shape : RunShape inside run

/-- The tokens are those of lines: the lexemes are cut at the line feeds outside brackets. -/
inductive LinesShape : List (Spanned Lexeme) → List Token → Prop
  | last {line : List (Spanned Lexeme)} {run : List Token} {place : Place}
      (shape : LineShape (line.map Spanned.value) run) :
      LinesShape line (run ++ [.leaf .endMarker place])
  | more {line rest : List (Spanned Lexeme)} {run ts : List Token} {feed : Spanned Lexeme}
      {place : Place} (shape : LineShape (line.map Spanned.value) run)
      (ends : feed.value = .newline) (below : LinesShape rest ts) :
      LinesShape (line ++ feed :: rest) (run ++ .leaf .newline place :: ts)

/-! ## Levels -/

namespace Level

def tokens (l : Level) : List Token :=
  (l.items ++ [l.current]).flatten

@[simp] theorem tokens_push (l : Level) (t : Token) : (l.push t).tokens = l.tokens ++ [t] := by
  simp [tokens, push]

@[simp] theorem tokens_separate (l : Level) (comma : Place) :
    (l.separate comma).tokens = l.tokens := by
  simp [tokens, separate]

theorem exists_tokens_of_finish {l : Level} {t u : Token} (mem : u ∈ l.finish)
    (inside : t.Within u) :
    (∃ place, t = .tuple (l.items ++ [l.current]) place ∧ l.finish = [t]) ∨
      ∃ v ∈ l.tokens, t.Within v := by
  have item {item : List Token} (among : item ∈ l.items ++ [l.current]) {v : Token}
      (part : v ∈ item) (within : t.Within v) : ∃ v ∈ l.tokens, t.Within v :=
    ⟨v, List.mem_flatten_of_mem among part, within⟩
  unfold finish at mem ⊢
  split at mem
  · rename_i noComma
    exact .inr (item (List.mem_append_right _ (List.mem_singleton.mpr rfl)) mem inside)
  · rename_i comma seen
    rw [List.mem_singleton.mp mem] at inside
    cases inside with
    | self => exact .inl ⟨_, rfl, rfl⟩
    | item among part within => exact .inr (item among part within)

/-- One lexeme is read on a level on which so many brackets are open. -/
inductive Takes (depth : Nat) (l : Level) : Lexeme → Level → Prop
  | dropped {value : Lexeme} (dropped : value.isDropped depth = true) : Takes depth l value l
  | leaf {value : Lexeme} {own : Leaf} {place : Place} (kept : value.leaf? = some own) :
      Takes depth l value (l.push (.leaf own place))
  | comma {place : Place} : Takes depth l .comma (l.separate place)

namespace Takes

variable {depth : Nat} {l l' : Level} {value : Lexeme}

theorem notBracket (h : l.Takes depth value l') : value.isBracket = false := by
  cases h with
  | dropped dropped => cases value <;> first | rfl | cases dropped
  | leaf kept => exact Lexeme.isBracket_of_leaf? kept
  | comma => rfl

theorem length_items (h : l.Takes depth value l') :
    l'.items.length = l.items.length + countOutside .comma 0 [value] := by
  cases h with
  | dropped dropped => cases value <;> first | rfl | cases dropped
  | leaf kept => cases value <;> first | rfl | cases kept
  | comma => exact List.length_append

theorem ne_newline (h : l.Takes 0 value l') : value ≠ .newline := by
  rintro rfl
  cases h with
  | dropped dropped => cases dropped
  | leaf kept => cases kept

theorem all (h : l.Takes depth value l') (pieces : l.All Token.IsPiece) :
    l'.All Token.IsPiece := by
  cases h with
  | dropped dropped => exact pieces
  | leaf kept =>
    apply pieces.push
    cases value <;> cases kept <;> exact ⟨rfl, rfl⟩
  | comma => exact pieces.separate _

theorem mem_tokens (h : l.Takes depth value l') {t : Token} (mem : t ∈ l'.tokens) :
    t ∈ l.tokens ∨ ∃ own place, t = .leaf own place := by
  cases h with
  | dropped dropped => exact .inl mem
  | leaf kept =>
    rw [tokens_push] at mem
    rcases List.mem_append.mp mem with before | here
    · exact .inl before
    · exact .inr ⟨_, _, List.mem_singleton.mp here⟩
  | comma =>
    rw [tokens_separate] at mem
    exact .inl mem

end Takes

/-- The lexemes are read on a level on which so many brackets are open. -/
inductive Reads : Nat → Level → List (Spanned Lexeme) → Prop
  | empty {depth : Nat} : Reads depth .empty []
  | one {depth : Nat} {l l' : Level} {ls : List (Spanned Lexeme)} {x : Spanned Lexeme}
      (before : Reads depth l ls) (takes : l.Takes depth x.value l') : Reads depth l' (ls ++ [x])
  | group {depth : Nat} {l inner : Level} {ls inside : List (Spanned Lexeme)} {bracket : Bracket}
      {o c : Spanned Lexeme} {place : Place} (before : Reads depth l ls)
      (opens : o.value = .opening bracket) (content : Reads (depth + 1) inner inside)
      (closes : c.value = .closing bracket) (span : place.span = o.span.join c.span) :
      Reads depth (l.push (.group bracket inner.finish place)) (ls ++ o :: (inside ++ [c]))

namespace Reads

variable {depth : Nat} {l : Level} {ls : List (Spanned Lexeme)}

theorem balanced (h : l.Reads depth ls) : Balanced (ls.map Spanned.value) := by
  induction h with
  | empty => exact .nil
  | one before takes ih =>
    rw [List.map_append]
    exact ih.append (.plain takes.notBracket .nil)
  | @group _ _ _ _ _ bracket _ _ _ before opens content closes span ih ihContent =>
    have pair : Balanced (.opening bracket :: (_ ++ [.closing bracket])) := .pair ihContent .nil
    rw [List.map_append]
    exact ih.append (by simpa [opens, closes] using pair)

theorem countOutside_group {value : Lexeme} (other : value.isBracket = false)
    {inside : List (Spanned Lexeme)} {inner : Level} {o c : Spanned Lexeme} {bracket : Bracket}
    (before : l.Reads depth ls) (opens : o.value = .opening bracket)
    (content : inner.Reads (depth + 1) inside) (closes : c.value = .closing bracket) :
    countOutside value 0 ((ls ++ o :: (inside ++ [c])).map Spanned.value) =
      countOutside value 0 (ls.map Spanned.value) := by
  have hidden := content.balanced.countOutside_pair other bracket
  rw [List.map_append, before.balanced.countOutside_behind]
  simpa [opens, closes] using hidden

/-- Every comma outside further brackets has ended an item. -/
theorem length_items (h : l.Reads depth ls) :
    l.items.length = countOutside .comma 0 (ls.map Spanned.value) := by
  induction h with
  | empty => rfl
  | one before takes ih =>
    rw [List.map_append, before.balanced.countOutside_behind, ← ih]
    exact takes.length_items
  | group before opens content closes span ih ihContent =>
    rw [countOutside_group rfl before opens content closes, ← ih]
    rfl

theorem countOutside_newline (h : l.Reads depth ls) (outside : depth = 0) :
    countOutside .newline 0 (ls.map Spanned.value) = 0 := by
  induction h with
  | empty => rfl
  | one before takes ih =>
    subst outside
    rw [List.map_append, before.balanced.countOutside_behind, ih rfl]
    simp [countOutside, takes.ne_newline]
  | group before opens content closes span ih ihContent =>
    rw [countOutside_group rfl before opens content closes, ih outside]

theorem all (h : l.Reads depth ls) : l.All Token.IsPiece := by
  induction h with
  | empty => exact all_empty
  | one before takes ih => exact takes.all ih
  | group before opens content closes span ih ihContent => exact ih.push ⟨rfl, rfl⟩

theorem shape (h : l.Reads depth ls) : RunShape (ls.map Spanned.value) l.finish := by
  have count := h.length_items
  rcases h.all.finish with ⟨none, same⟩ | ⟨place, several, same, -⟩
  · have outside : countOutside .comma 0 (ls.map Spanned.value) = 0 := by
      rw [← count, none]
      rfl
    rw [same]
    exact runShape_of_pieces outside h.all.current
  · rw [same]
    refine runShape_of_tuple place several ?_
    rw [List.length_append, count, List.length_singleton]

theorem shapedIn_tuple (h : l.Reads depth ls) {place : Place}
    (same : l.finish = [.tuple (l.items ++ [l.current]) place]) (ms : List (Spanned Lexeme)) :
    Token.ShapedIn ms (.tuple (l.items ++ [l.current]) place) := by
  rcases h.all.finish with ⟨-, run⟩ | ⟨place', several, -, parts⟩
  · have mem : Token.tuple (l.items ++ [l.current]) place ∈ l.finish := by
      rw [same]
      exact List.mem_singleton.mpr rfl
    rw [run] at mem
    cases (h.all.current _ mem).1
  · exact ⟨several, parts⟩

/-- All that stands on a level has its shape among the lexemes that are read on it. -/
theorem shapedIn_tokens (h : l.Reads depth ls) :
    ∀ u ∈ l.tokens, ∀ t : Token, t.Within u → t.ShapedIn ls := by
  induction h with
  | empty => exact nofun
  | @one depth l l' ls x before takes ih =>
    intro u mem t inside
    rcases takes.mem_tokens mem with old | ⟨own, place, rfl⟩
    · exact (ih u old t inside).extend [] [x]
    · exact Token.shapedIn_of_leaf inside
  | @group depth l inner ls between bracket o c place before opens content closes span ih ihInner =>
    intro u mem t inside
    rw [tokens_push] at mem
    rcases List.mem_append.mp mem with old | new
    · exact (ih u old t inside).extend [] (o :: (between ++ [c]))
    · rw [List.mem_singleton.mp new] at inside
      cases inside with
      | self =>
        exact ⟨ls, o, between, c, [], rfl, opens, closes, content.balanced, span, content.shape⟩
      | inner part within =>
        rcases exists_tokens_of_finish part within with ⟨place, rfl, same⟩ | ⟨v, among, deeper⟩
        · exact content.shapedIn_tuple same _
        · have shaped := (ihInner v among t deeper).extend (ls ++ [o]) [c]
          rwa [List.append_assoc] at shaped

theorem shapedIn_finish (h : l.Reads depth ls) :
    ∀ u ∈ l.finish, ∀ t : Token, t.Within u → t.ShapedIn ls := by
  intro u mem t inside
  rcases exists_tokens_of_finish mem inside with ⟨place, rfl, same⟩ | ⟨v, among, deeper⟩
  · exact h.shapedIn_tuple same ls
  · exact h.shapedIn_tokens v among t deeper

theorem line (h : l.Reads 0 ls) : LineShape (ls.map Spanned.value) l.finish :=
  ⟨h.balanced, h.countOutside_newline rfl, h.shape⟩

end Reads

end Level

/-! ## States -/

inductive LinesRead : List (Spanned Lexeme) → List Token → Prop
  | nil : LinesRead [] []
  | snoc {ls own : List (Spanned Lexeme)} {out : List Token} {l : Level} {feed : Spanned Lexeme}
      {place : Place} (before : LinesRead ls out) (line : l.Reads 0 own)
      (ends : feed.value = .newline) :
      LinesRead (ls ++ (own ++ [feed])) (out ++ l.finish ++ [.leaf .newline place])

namespace LinesRead

variable {ls : List (Spanned Lexeme)} {out : List Token}

theorem shape (h : LinesRead ls out) {rest : List (Spanned Lexeme)} {ts : List Token}
    (below : LinesShape rest ts) : LinesShape (ls ++ rest) (out ++ ts) := by
  induction h generalizing rest ts with
  | nil => exact below
  | @snoc ls own out l feed place before line ends ih =>
    have next : LinesShape (own ++ feed :: rest) (l.finish ++ .leaf .newline place :: ts) :=
      .more line.line ends below
    simpa using ih next

theorem shapedIn (h : LinesRead ls out) :
    ∀ u ∈ out, ∀ t : Token, t.Within u → t.ShapedIn ls := by
  induction h with
  | nil => exact nofun
  | @snoc ls own out l feed place before line ends ih =>
    intro u mem t inside
    rcases List.mem_append.mp mem with lines | mark
    · rcases List.mem_append.mp lines with old | new
      · exact (ih u old t inside).extend [] (own ++ [feed])
      · exact (line.shapedIn_finish u new t inside).extend ls [feed]
    · rw [List.mem_singleton.mp mark] at inside
      exact Token.shapedIn_of_leaf inside

end LinesRead

inductive PendingRead : List Pending → List (Spanned Lexeme) → Prop
  | nil : PendingRead [] []
  | cons {p : Pending} {rest : List Pending} {o : Spanned Lexeme} {ls below : List (Spanned Lexeme)}
      (outer : PendingRead rest below) (opens : o.value = .opening p.bracket)
      (span : p.place.span = o.span) (level : p.level.Reads (rest.length + 1) ls) :
      PendingRead (p :: rest) (below ++ o :: ls)

namespace Grouping

/-- The finished lines, the line outside all brackets and the open brackets make up what has been
read. -/
def HasRead (g : Grouping) (ls : List (Spanned Lexeme)) : Prop :=
  ∃ out own below, ls = out ++ (own ++ below) ∧ LinesRead out g.output ∧ g.top.Reads 0 own ∧
    PendingRead g.pending below

namespace HasRead

variable {g g' : Grouping} {ls added : List (Spanned Lexeme)}

theorem mapLevel (h : g.HasRead ls) {f : Level → Level}
    (reads : ∀ l own, l.Reads g.pending.length own →
      (f l).Reads g.pending.length (own ++ added)) : (g.mapLevel f).HasRead (ls ++ added) := by
  obtain ⟨top, pending, output, line⟩ := g
  obtain ⟨out, own, below, rfl, lines, onTop, open_⟩ := h
  cases open_ with
  | nil => exact ⟨out, own ++ added, [], by simp, lines, reads top own onTop, .nil⟩
  | @cons p rest o behind below outer opens span level =>
    refine ⟨out, own, below ++ o :: (behind ++ added), by simp, lines, onTop, ?_⟩
    exact .cons outer opens span (reads p.level behind level)

theorem one (h : g.HasRead ls) {f : Level → Level} {x : Spanned Lexeme}
    (takes : ∀ l : Level, l.Takes g.pending.length x.value (f l)) :
    (g.mapLevel f).HasRead (ls ++ [x]) :=
  h.mapLevel fun l _ level => level.one (takes l)

theorem drop (h : g.HasRead ls) {x : Spanned Lexeme}
    (dropped : x.value.isDropped g.pending.length = true) : g.HasRead (ls ++ [x]) := by
  have same : g.mapLevel id = g := by
    obtain ⟨top, pending, output, line⟩ := g
    cases pending <;> rfl
  have whole := h.one (f := id) fun l => .dropped dropped
  rwa [same] at whole

theorem push (h : g.HasRead ls) {inner : Level} {inside : List (Spanned Lexeme)} {bracket : Bracket}
    {o c : Spanned Lexeme} {place : Place} (opens : o.value = .opening bracket)
    (content : inner.Reads (g.pending.length + 1) inside) (closes : c.value = .closing bracket)
    (span : place.span = o.span.join c.span) :
    (g.push (.group bracket inner.finish place)).HasRead (ls ++ o :: (inside ++ [c])) :=
  h.mapLevel fun _ _ level => level.group opens content closes span

theorem newline (h : g.HasRead ls) (span : Span) :
    (g.newline span).HasRead (ls ++ [⟨.newline, span⟩]) := by
  obtain ⟨top, pending, output, line⟩ := g
  cases pending with
  | nil =>
    obtain ⟨out, own, below, rfl, lines, onTop, open_⟩ := h
    cases open_
    have longer : LinesRead (out ++ (own ++ [⟨.newline, span⟩]))
        (output ++ top.finish ++ [.leaf .newline ⟨span, line⟩]) := lines.snoc onTop rfl
    exact ⟨_, [], [], by simp, longer, .empty, .nil⟩
  | cons p rest => exact h.drop rfl

theorem step (h : g.HasRead ls) {x : Spanned Lexeme} (step : g.Step x g') :
    g'.HasRead (ls ++ [x]) := by
  cases step with
  | leaf kept => exact h.one fun l => .leaf kept
  | comment => exact h.drop rfl
  | newline => exact h.newline _
  | comma => exact h.one fun l => .comma
  | @opening bracket span =>
    obtain ⟨out, own, below, rfl, lines, onTop, open_⟩ := h
    have opens : PendingRead (⟨bracket, ⟨span, g.line⟩, .empty⟩ :: g.pending)
        (below ++ [⟨.opening bracket, span⟩]) := .cons open_ rfl rfl .empty
    exact ⟨out, own, _, by simp, lines, onTop, opens⟩
  | @closing p rest span innermost =>
    obtain ⟨out, own, below, rfl, lines, onTop, open_⟩ := h
    rw [innermost] at open_
    cases open_ with
    | @cons _ _ o behind below outer opens start level =>
      have outside : HasRead { g with pending := rest } (out ++ (own ++ below)) :=
        ⟨out, own, below, rfl, lines, onTop, outer⟩
      let place : Place := ⟨p.place.span.join span, p.place.line⟩
      have joined : place.span = o.span.join span := by rw [← start]
      have whole := outside.push opens level (c := ⟨.closing p.bracket, span⟩) rfl joined
      simpa using whole

end HasRead

end Grouping

/-- The tokens of lexemes stand in lines, which are the pieces between the line feeds outside
brackets, and every group stands for two brackets that match. In a line and between brackets, a
tuple stands exactly if there are commas outside further brackets: it stands alone and has one item
more than there are commas. No item holds a tuple, and nothing that ends a line or is dropped is
nested. -/
theorem tuples_shaped {ls : List (Spanned Lexeme)} {eof : Nat} {ts : List Token}
    (accepted : matchBrackets ls eof = .ok ts) :
    LinesShape ls ts ∧ ∀ u ∈ ts, ∀ t : Token, t.Within u → t.ShapedIn ls := by
  obtain ⟨g, run, closed, rfl⟩ := matchBrackets_eq_ok_iff.mp accepted
  have read : g.HasRead ls :=
    Grouping.run_induction (P := fun ls g => g.HasRead ls) run
      ⟨[], [], [], rfl, .nil, .empty, .nil⟩ fun _ _ _ _ _ h step => h.step step
  obtain ⟨out, own, below, rfl, lines, onTop, open_⟩ := read
  rw [closed] at open_
  cases open_
  rw [List.append_nil]
  constructor
  · have last : LinesShape own (g.top.finish ++ [.leaf .endMarker ⟨.point eof, g.line⟩]) :=
      .last onTop.line
    have shape := lines.shape last
    rwa [← List.append_assoc] at shape
  · intro u mem t inside
    rcases List.mem_append.mp mem with content | mark
    · rcases List.mem_append.mp content with line | last
      · exact (lines.shapedIn u line t inside).extend [] own
      · have shaped := (onTop.shapedIn_finish u last t inside).extend out []
        rwa [List.append_nil] at shaped
    · rw [List.mem_singleton.mp mark] at inside
      exact Token.shapedIn_of_leaf inside

theorem tuples_shaped_callOverLines :
    let tuple : Token := .tuple [[.leaf (.number "1") ⟨⟨2, 3⟩, 1⟩], []] ⟨⟨2, 4⟩, 1⟩
    let call : Token := .group .paren [tuple] ⟨⟨1, 7⟩, 1⟩
    let ts : List Token := [.leaf (.name "f") ⟨⟨0, 1⟩, 1⟩, call, .leaf .newline ⟨⟨7, 8⟩, 2⟩,
      .leaf .endMarker ⟨⟨8, 8⟩, 3⟩]
    matchBrackets callOverLines 8 = .ok ts ∧ LinesShape callOverLines ts ∧
      call.ShapedIn callOverLines ∧ tuple.ShapedIn callOverLines := by
  intro tuple call ts
  have accepted : matchBrackets callOverLines 8 = .ok ts := rfl
  obtain ⟨lines, shaped⟩ := tuples_shaped accepted
  have among : call ∈ ts := List.mem_cons_of_mem _ List.mem_cons_self
  have inside : tuple.Within call := .inner (List.mem_singleton.mpr rfl) .self
  exact ⟨accepted, lines, shaped call among call .self, shaped call among tuple inside⟩

end ExprCheck
