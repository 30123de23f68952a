import ExprCheck.Proofs.Lexeme.Feed
/-! Where the lexemes of a text lie. A lexeme takes up some of the text, and the next one starts
where it ends or later. Main statement: the line of a lexeme is one more than the line feeds among
the lexemes in front of it. -/
namespace ExprCheck

namespace Span

def Covers (s : Span) (parts : List Span) : Prop :=
  ∀ p ∈ parts, s.start ≤ p.start ∧ p.stop ≤ s.stop

/-- The range is not reversed and ends at the offset or in front of it. -/
def EndsBy (s : Span) (bound : Nat) : Prop :=
  s.start ≤ s.stop ∧ s.stop ≤ bound

/-- The smallest range that covers those of a list. -/
structure Hull (s : Span) (parts : List Span) : Prop where
  covers : s.Covers parts
  least : ∀ t : Span, t.Covers parts → t.start ≤ s.start ∧ s.stop ≤ t.stop

theorem hull_singleton (s : Span) : s.Hull [s] where
  covers := List.forall_mem_singleton.mpr ⟨Nat.le_refl _, Nat.le_refl _⟩
  least _ covers := covers s (List.mem_singleton.mpr rfl)

theorem covers_append {s : Span} {ps qs : List Span} :
    s.Covers (ps ++ qs) ↔ s.Covers ps ∧ s.Covers qs :=
  List.forall_mem_append

theorem Hull.join {s t : Span} {ps qs : List Span} (first : s.Hull ps) (second : t.Hull qs) :
    (s.join t).Hull (ps ++ qs) where
  covers := by
    refine covers_append.mpr ⟨fun p mem => ?_, fun q mem => ?_⟩
    · have here := first.covers p mem
      simp only [Span.join]
      omega
    · have here := second.covers q mem
      simp only [Span.join]
      omega
  least u covers := by
    obtain ⟨coversFirst, coversSecond⟩ := covers_append.mp covers
    have below := first.least u coversFirst
    have below' := second.least u coversSecond
    simp only [Span.join]
    omega

theorem Hull.widen {s : Span} {ps qs : List Span} (h : s.Hull ps) (more : ps ⊆ qs)
    (covers : s.Covers qs) : s.Hull qs where
  covers := covers
  least t coversAll := h.least t fun p mem => coversAll p (more mem)

end Span

/-- The lexemes follow each other, and each takes up some of the text. -/
structure InOrder (ls : List (Spanned Lexeme)) : Prop where
  apart : ls.Pairwise fun l m => l.span.stop ≤ m.span.start
  wide : ∀ l ∈ ls, l.span.start < l.span.stop

namespace InOrder

variable {ls ms : List (Spanned Lexeme)}

theorem sublist (h : InOrder ls) (part : ms.Sublist ls) : InOrder ms :=
  ⟨h.apart.sublist part, fun l mem => h.wide l (part.subset mem)⟩

theorem stop_le_start (h : InOrder (ls ++ ms)) {l m : Spanned Lexeme} (first : l ∈ ls)
    (second : m ∈ ms) : l.span.stop ≤ m.span.start :=
  (List.pairwise_append.mp h.apart).2.2 l first m second

theorem stop_le_last {last : Spanned Lexeme} (h : InOrder (ls ++ [last])) :
    ∀ l ∈ ls ++ [last], l.span.stop ≤ last.span.stop := by
  refine List.forall_mem_append.mpr ⟨fun l mem => ?_, List.forall_mem_singleton.mpr (Nat.le_refl _)⟩
  have apart := h.stop_le_start mem (List.mem_singleton.mpr rfl)
  have wide := h.wide last (by simp)
  omega

theorem hull_append_iff (h : InOrder (ls ++ ms)) {span : Span}
    (hull : span.Hull (ls.map Spanned.span)) :
    span.Hull ((ls ++ ms).map Spanned.span) ↔ ms = [] := by
  constructor
  · intro all
    cases ms with
    | nil => rfl
    | cons next more =>
      have covers : Span.Covers ⟨span.start, next.span.start⟩ (ls.map Spanned.span) := by
        refine List.forall_mem_map.mpr fun l mem => ⟨?_, h.stop_le_start mem List.mem_cons_self⟩
        exact (hull.covers l.span (List.mem_map_of_mem mem)).1
      have short : span.stop ≤ next.span.start := (hull.least _ covers).2
      have reaches := (all.covers next.span (List.mem_map_of_mem (by simp))).2
      have wide := h.wide next (by simp)
      omega
  · rintro rfl
    rwa [List.append_nil]

end InOrder

/-- The lexemes are in order, and their lines are counted by the line feeds among them. -/
structure LaidOut (source : String) (ls : List (Spanned Lexeme)) : Prop extends InOrder ls where
  line : ∀ before l after, ls = before ++ l :: after →
    lineOf source l.span.start = before.countP (fun l => l.value = .newline) + 1

theorem LaidOut.front {source : String} {ls ms : List (Spanned Lexeme)}
    (h : LaidOut source (ls ++ ms)) : LaidOut source ls where
  toInOrder := h.toInOrder.sublist (List.sublist_append_left ls ms)
  line before l after parts := h.line before l (after ++ ms) (by simp [parts])

theorem feedsBefore_byteLength (before rest : List Char) :
    feedsBefore (before ++ rest) (byteLength before) = before.count '\n' := by
  induction before with
  | nil => cases rest <;> rfl
  | cons c cs ih =>
    have positive := c.utf8Size_pos
    obtain ⟨offset, length⟩ : ∃ offset, byteLength (c :: cs) = offset + 1 :=
      ⟨c.utf8Size + byteLength cs - 1, by simp only [byteLength]; omega⟩
    have behind : offset + 1 - c.utf8Size = byteLength cs := by
      simp only [byteLength] at length
      omega
    rw [length, List.cons_append, feedsBefore, behind, ih, List.count_cons, Nat.add_comm]
    simp

namespace Lexeme.Scanned

variable {offset : Nat} {cs : List Char} {ls : List (Spanned Lexeme)}

theorem starts_after (scanned : Scanned offset cs ls) : ∀ l ∈ ls, offset ≤ l.span.start := by
  induction scanned with
  | done offset => exact nofun
  | blank skipped below ih => exact fun l mem => Nat.le_trans (Nat.le_add_right _ _) (ih l mem)
  | lexeme kept starts below ih =>
    refine List.forall_mem_cons.mpr ⟨Nat.le_refl _, fun l mem => ?_⟩
    exact Nat.le_trans (Nat.le_add_right _ _) (ih l mem)

theorem inOrder (scanned : Scanned offset cs ls) : InOrder ls := by
  induction scanned with
  | done offset => exact ⟨.nil, nofun⟩
  | blank skipped below ih => exact ih
  | @lexeme offset first cs ls make more kept starts below ih =>
    have positive : 0 < byteLength (first :: cs.take more) :=
      Nat.lt_of_lt_of_le first.utf8Size_pos (Nat.le_add_right _ _)
    refine ⟨List.pairwise_cons.mpr ⟨below.starts_after, ih.apart⟩, ?_⟩
    exact List.forall_mem_cons.mpr ⟨Nat.lt_add_of_pos_right positive, ih.wide⟩

theorem feedsBefore_start {passed : List Char} (scanned : Scanned (byteLength passed) cs ls)
    {before after : List (Spanned Lexeme)} {l : Spanned Lexeme}
    (parts : ls = before ++ l :: after) :
    feedsBefore (passed ++ cs) l.span.start =
      passed.count '\n' + before.countP fun l => l.value = .newline := by
  -- The text in front grows by what each step takes.
  generalize start : byteLength passed = offset at scanned
  induction scanned generalizing passed before with
  | done offset => simp at parts
  | @blank offset first cs ls skipped below ih =>
    have other : first ≠ '\n' := by
      rintro rfl
      cases skipped
    have next := @ih (passed ++ [first]) before parts
      (by simp [byteLength_append, byteLength, start])
    rw [List.append_assoc, List.singleton_append] at next
    rw [next, List.count_append, List.count_singleton, if_neg (by simpa using other)]
    rfl
  | @lexeme offset first cs ls make more kept starts below ih =>
    cases before with
    | nil =>
      obtain ⟨rfl, rfl⟩ := List.cons.inj parts
      rw [List.countP_nil, Nat.add_zero, ← start]
      exact feedsBefore_byteLength passed _
    | cons here before =>
      obtain ⟨rfl, behind⟩ := List.cons.inj parts
      have next := @ih (passed ++ first :: cs.take more) before behind
        (by rw [byteLength_append, start])
      rw [List.append_assoc, List.cons_append, List.take_append_drop] at next
      rw [next, List.count_append, feeds_of_start starts (String.ofList (first :: cs.take more)),
        List.countP_cons]
      simp only [decide_eq_true_eq]
      omega

end Lexeme.Scanned

/-- The lexemes of a text are laid out in it. -/
theorem laidOut_of_scan {source : String} {ls : List (Spanned Lexeme)}
    (scanned : Lexeme.scan source = .ok ls) : LaidOut source ls := by
  have scanned : Lexeme.Scanned (byteLength []) source.toList ls :=
    Lexeme.scanFrom_eq_ok_iff.mp scanned
  refine ⟨scanned.inOrder, fun before l after parts => ?_⟩
  rw [lineOf]
  exact congrArg (· + 1) ((scanned.feedsBefore_start parts).trans (Nat.zero_add _))

end ExprCheck
