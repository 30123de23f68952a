import ExprCheck.Proofs.Lexeme.Lossless
import ExprCheck.Proofs.Token.Positions
/-! How tokens lie in each other. A tuple leaves out the commas behind its last token, but all its
tokens are made of lexemes in front of them. Main statement: a token contains all that stand in it,
and those that stand side by side follow each other. -/
namespace ExprCheck

namespace Span

def Contains (s t : Span) : Prop :=
  s.start ≤ t.start ∧ t.stop ≤ s.stop

variable {s t u : Span} {ps qs : List Span}

theorem contains_refl (s : Span) : s.Contains s :=
  ⟨Nat.le_refl _, Nat.le_refl _⟩

theorem Contains.trans (h : s.Contains t) (h' : t.Contains u) : s.Contains u :=
  ⟨Nat.le_trans h.1 h'.1, Nat.le_trans h'.2 h.2⟩

theorem Hull.contains (outer : s.Hull ps) (inner : t.Hull qs) (part : qs ⊆ ps) : s.Contains t :=
  inner.least s fun p mem => outer.covers p (part mem)

theorem Hull.ne_nil (h : s.Hull ps) : ps ≠ [] := by
  rintro rfl
  have later := (h.least ⟨s.start + 1, s.stop⟩ nofun).1
  exact absurd later (Nat.not_succ_le_self _)

theorem Hull.stop_le (h : s.Hull ps) {bound : Nat} (below : ∀ p ∈ ps, p.stop ≤ bound) :
    s.stop ≤ bound :=
  (h.least ⟨s.start, bound⟩ fun p mem => ⟨(h.covers p mem).1, below p mem⟩).2

theorem Hull.le_start (h : s.Hull ps) {bound : Nat} (above : ∀ p ∈ ps, bound ≤ p.start) :
    bound ≤ s.start :=
  (h.least ⟨bound, s.stop⟩ fun p mem => ⟨above p mem, (h.covers p mem).2⟩).1

end Span

namespace InOrder

variable {ls ms : List (Spanned Lexeme)} {s t : Span}

theorem hull_wide (order : InOrder ls) (hull : s.Hull (ls.map Spanned.span)) :
    s.start < s.stop := by
  obtain ⟨l, mem⟩ : ∃ l, l ∈ ls :=
    List.exists_mem_of_ne_nil _ fun none => hull.ne_nil (by rw [none, List.map_nil])
  have covered := hull.covers l.span (List.mem_map_of_mem mem)
  have wide := order.wide l mem
  omega

theorem hull_stop_le_start (order : InOrder (ls ++ ms)) (first : s.Hull (ls.map Spanned.span))
    (second : t.Hull (ms.map Spanned.span)) : s.stop ≤ t.start :=
  second.le_start <| List.forall_mem_map.mpr fun _ inSecond =>
    first.stop_le <| List.forall_mem_map.mpr fun _ inFirst =>
      order.stop_le_start inFirst inSecond

end InOrder

def Apart (run : List Token) : Prop :=
  run.Pairwise fun t u => t.place.span.stop ≤ u.place.span.start

/-- How a token lies in a source, and the tokens in it. -/
structure Token.Nested (source : String) (t : Token) : Prop where
  inside : t.place.span.EndsBy source.utf8ByteSize
  wide : (∃ place, t = .leaf .endMarker place) ∨ t.place.span.start < t.place.span.stop
  contains : ∀ u : Token, u.Within t → t.place.span.Contains u.place.span
  apart : Apart t.parts

variable {source : String}

theorem missedCommas_le (first : List Token) (items : List (List Token)) :
    missedCommas (first :: items) ≤ (items.reverse.takeWhile List.isEmpty).length := by
  cases items with
  | nil => exact Nat.le_refl _
  | cons item rest =>
    rw [missedCommas, List.reverse_cons, List.takeWhile_append]
    split
    next all => exact Nat.le_trans (Nat.le_of_eq all) (by simp)
    next => exact Nat.le_refl _

theorem Token.MadeOf.reach {t : Token} {own : List (Spanned Lexeme)}
    (h : t.MadeOf (Token.Placed source) own) :
    ∃ kept inner, kept.Sublist own ∧ inner.Sublist kept ∧
      t.place.span.Hull (kept.map Spanned.span) ∧
      InTurn (Token.MadeOf (Token.Placed source)) t.parts inner := by
  cases h with
  | leaf same holds => exact ⟨_, [], .refl _, List.nil_sublist _, holds.1, .nil⟩
  | group opens closes content holds =>
    exact ⟨_, _, .refl _, (List.sublist_append_left ..).cons _, holds.1, content⟩
  | @tuple first items place ls ms start rest holds =>
    obtain ⟨kept, missed, whole, -, length, hull, -⟩ := holds.span
    obtain ⟨front, commas, inner, rfl, part, behind, count⟩ := rest.inTurn
    have few : missed.length ≤ commas.length := by
      rw [length, count]
      exact missedCommas_le first items
    have sizes := congrArg List.length whole
    simp only [List.length_append] at sizes
    have words : ls ++ front <+: kept :=
      List.prefix_of_prefix_length_le ⟨commas, by rw [List.append_assoc, whole]⟩ ⟨missed, rfl⟩
        (by rw [List.length_append]; omega)
    refine ⟨kept, ls ++ inner, ?_, ?_, hull, start.append behind⟩
    · rw [whole]
      exact List.sublist_append_left ..
    · exact ((List.Sublist.refl ls).append part).trans words.sublist

theorem InTurn.apart {run : List Token} {ls : List (Spanned Lexeme)}
    (h : InTurn (Token.MadeOf (Token.Placed source)) run ls) (order : InOrder ls) : Apart run := by
  induction h with
  | nil => exact .nil
  | cons first rest ih =>
    have behind := ih (order.sublist (List.sublist_append_right ..))
    refine List.pairwise_cons.mpr ⟨fun u mem => ?_, behind⟩
    obtain ⟨kept, -, part, -, hull, -⟩ := first.reach
    obtain ⟨own, among, made⟩ := rest.sublist_of_mem u mem
    obtain ⟨kept', -, part', -, hull', -⟩ := made.reach
    exact (order.sublist (part.append (part'.trans among))).hull_stop_le_start hull hull'

namespace Token.MadeOf

variable {t u : Token} {own : List (Spanned Lexeme)}

/-- A token contains those in it, outwards from the innermost. -/
theorem contains (h : u.MadeOf (Token.Placed source) own) (inside : t.Within u) :
    u.place.span.Contains t.place.span := by
  refine inside.outwards (motive := fun u => ∀ own, u.MadeOf (Token.Placed source) own →
    u.place.span.Contains t.place.span) (fun _ _ => Span.contains_refl _) ?_ own h
  intro v w part ih own made
  obtain ⟨kept, inner, -, fewer, hull, content⟩ := made.reach
  obtain ⟨mid, among, madeMid⟩ := content.sublist_of_mem v part
  obtain ⟨kept', -, fewer', -, hull', -⟩ := madeMid.reach
  have subset := ((fewer'.trans among).trans fewer).subset
  exact (hull.contains hull' (List.map_subset _ subset)).trans (ih mid madeMid)

theorem nested (h : t.MadeOf (Token.Placed source) own) (order : InOrder own)
    (bounded : ∀ l ∈ own, l.span.stop ≤ source.utf8ByteSize) : t.Nested source := by
  obtain ⟨kept, inner, part, fewer, hull, content⟩ := h.reach
  have wide := (order.sublist part).hull_wide hull
  have bound := hull.stop_le (List.forall_mem_map.mpr fun l mem => bounded l (part.subset mem))
  exact ⟨⟨Nat.le_of_lt wide, bound⟩, .inr wide, fun u within => h.contains within,
    content.apart (order.sublist (fewer.trans part))⟩

end Token.MadeOf

/-- The tokens of a source follow each other, and at any depth they are nested. -/
theorem nested_of_tokenize {ts : List Token} (read : tokenize source = .ok ts) :
    Apart ts ∧ ∀ t u : Token, u ∈ ts → t.Within u → t.Nested source := by
  obtain ⟨ls, body, line, scanned, rfl, order, made⟩ := made_of_tokenize read
  have bounded : ∀ l ∈ significant 0 ls, l.span.stop ≤ source.utf8ByteSize :=
    fun l mem => inside_of_scan scanned l ((significant_sublist 0 ls).subset mem)
  have nested : ∀ t u : Token, u ∈ body → t.Within u → t.Nested source := by
    intro t u mem inside
    obtain ⟨own, part, madeOf⟩ := made.sublist_of_mem u mem
    obtain ⟨few, fewer, madeFew⟩ := madeOf.of_within inside
    have among := fewer.trans part
    exact madeFew.nested (order.sublist among) fun l mem => bounded l (among.subset mem)
  constructor
  · refine List.pairwise_append.mpr ⟨made.apart order, List.pairwise_singleton .., ?_⟩
    intro t mem u finish
    rw [List.mem_singleton.mp finish]
    exact (nested t t mem .self).inside.2
  · refine fun t => List.forall_mem_append.mpr ⟨fun u mem => nested t u mem, ?_⟩
    refine List.forall_mem_singleton.mpr fun inside => ?_
    cases inside
    refine ⟨⟨Nat.le_refl _, Nat.le_refl _⟩, .inl ⟨_, rfl⟩, fun u within => ?_, .nil⟩
    cases within
    exact Span.contains_refl _

end ExprCheck
