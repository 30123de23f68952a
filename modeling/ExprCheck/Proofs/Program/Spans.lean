import Mathlib.Data.List.Forall2
import ExprCheck.Proofs.Program.Lines
import ExprCheck.Proofs.Token.Joined
import ExprCheck.Proofs.Token.Nesting
/-! Where the lines of an analysis lie. The span of a line is taken from its first and its last
token, which are its outermost ends because tokens follow each other. Main statement: the spans of
the lines follow each other, and each contains all tokens of its line. -/
namespace ExprCheck

variable {source : String} {ts : List Token}

theorem mem_of_tokenLines {run : List Token} (line : run ∈ tokenLines ts) {t : Token}
    (mem : t ∈ run) : t ∈ ts ∧ t.endsLine = false := by
  have among := List.mem_flatten_of_mem line mem
  rw [← wholeRun_eq_flatten, wholeRun, List.mem_filter] at among
  simpa using among

theorem apart_tokenLines (apart : Apart ts) :
    (∀ run ∈ tokenLines ts, Apart run) ∧
      (tokenLines ts).Pairwise fun run later =>
        ∀ t ∈ run, ∀ u ∈ later, t.place.span.stop ≤ u.place.span.start := by
  have whole : Apart (tokenLines ts).flatten := by
    rw [← wholeRun_eq_flatten]
    exact apart.filter _
  exact List.pairwise_flatten.mp whole

theorem wide_of_tokenLines (read : tokenize source = .ok ts) {run : List Token}
    (line : run ∈ tokenLines ts) {t : Token} (mem : t ∈ run) :
    t.place.span.start < t.place.span.stop := by
  obtain ⟨among, inner⟩ := mem_of_tokenLines line mem
  rcases ((nested_of_tokenize read).2 t t among .self).wide with ⟨place, rfl⟩ | wide
  · cases inner
  · exact wide

theorem runSpan_eq {run : List Token} (some : run ≠ []) :
    runSpan run = ⟨(run.head some).place.span.start, (run.getLast some).place.span.stop⟩ := by
  simp [runSpan, firstPlace?, lastPlace?, List.head?_eq_some_head some,
    List.getLast?_eq_some_getLast some]

theorem runSpan_contains {run : List Token} (apart : Apart run)
    (wide : ∀ t ∈ run, t.place.span.start < t.place.span.stop) {t : Token} (mem : t ∈ run) :
    (runSpan run).Contains t.place.span := by
  have some := List.ne_nil_of_mem mem
  have here := wide t mem
  rw [runSpan_eq some]
  constructor
  · obtain ⟨first, rest, rfl⟩ := List.exists_cons_of_ne_nil some
    rcases List.mem_cons.mp mem with rfl | behind
    · exact Nat.le_refl _
    · have start := wide first List.mem_cons_self
      have after := (List.pairwise_cons.mp apart).1 t behind
      exact Nat.le_trans (Nat.le_of_lt start) after
  · rw [← List.dropLast_concat_getLast some] at apart mem
    rcases List.mem_append.mp mem with ahead | final
    · have before := (List.pairwise_append.mp apart).2.2 t ahead _ (List.mem_singleton.mpr rfl)
      have finish := wide (run.getLast some) (List.getLast_mem some)
      exact Nat.le_trans before (Nat.le_of_lt finish)
    · rw [List.mem_singleton.mp final]

/-- The range takes up some of a source and reaches over all tokens of a line, at any depth. -/
structure Span.Encloses (source : String) (run : List Token) (s : Span) : Prop where
  wide : s.start < s.stop
  inside : s.stop ≤ source.utf8ByteSize
  contains : ∀ t u : Token, u ∈ run → t.Within u → s.Contains t.place.span

theorem encloses_runSpan (read : tokenize source = .ok ts) {run : List Token}
    (line : run ∈ tokenLines ts) : (runSpan run).Encloses source run := by
  obtain ⟨apart, nested⟩ := nested_of_tokenize read
  have wide : ∀ t ∈ run, t.place.span.start < t.place.span.stop :=
    fun _ mem => wide_of_tokenLines read line mem
  have reaches {t : Token} (mem : t ∈ run) : (runSpan run).Contains t.place.span :=
    runSpan_contains ((apart_tokenLines apart).1 run line) wide mem
  have some := ne_nil_of_mem_tokenLines line
  have last := nested _ _ (mem_of_tokenLines line (List.getLast_mem some)).1 .self
  have first := wide _ (List.head_mem some)
  have covered := reaches (List.head_mem some)
  refine ⟨?_, ?_, fun t u mem inside => ?_⟩
  · exact Nat.lt_of_le_of_lt covered.1 (Nat.lt_of_lt_of_le first covered.2)
  · rw [runSpan_eq some]
    exact last.inside.2
  · exact (reaches mem).trans ((nested u u (mem_of_tokenLines line mem).1 .self).contains t inside)

namespace Analyzer

/-- The tokens of a source follow each other and lie in it, at any depth they contain the tokens in
them, and those that stand side by side, or in items of one tuple, follow each other. So the spans
of the lines follow each other as well, and each contains all tokens of its line. -/
theorem spans_nested (a : Analyzer) (source : String) (ts : List Token)
    (read : tokenize source = .ok ts) :
    Apart ts ∧ (∀ t u : Token, u ∈ ts → t.Within u → t.Nested source) ∧
      ∃ o, a.analyzeLines source = .ok o ∧
        (o.lines.Pairwise fun line later => line.span.stop ≤ later.span.start) ∧
        List.Forall₂ (fun run line => line.span.Encloses source run) (tokenLines ts) o.lines := by
  obtain ⟨apart, nested⟩ := nested_of_tokenize read
  refine ⟨apart, nested, _, a.analyzeLines_of_tokenize read, ?_, ?_⟩
  · rw [analyzeRuns_eq]
    refine List.pairwise_map.mpr ?_
    refine (apart_tokenLines apart).2.imp_of_mem fun {run later} line line' behind => ?_
    have some := ne_nil_of_mem_tokenLines line
    have some' := ne_nil_of_mem_tokenLines line'
    change (runSpan run).stop ≤ (runSpan later).start
    rw [runSpan_eq some, runSpan_eq some']
    exact behind _ (List.getLast_mem some) _ (List.head_mem some')
  · rw [analyzeRuns_eq]
    refine List.forall₂_map_right_iff.mpr (List.forall₂_same.mpr fun run line => ?_)
    exact encloses_runSpan read line

/- The tuple has an empty item on either side, and its group stands on two lines. -/
theorem spans_nested_emptyItems :
    ∃ ts, tokenize "f(,1,\n)\nx" = .ok ts ∧ Apart ts ∧
      (∀ t u : Token, u ∈ ts → t.Within u → t.Nested "f(,1,\n)\nx") ∧
      ∃ o, analyzeLines ⟨fun _ => none, false⟩ "f(,1,\n)\nx" = .ok o ∧
        (o.lines.Pairwise fun line later => line.span.stop ≤ later.span.start) ∧
        List.Forall₂ (fun run line => line.span.Encloses "f(,1,\n)\nx" run) (tokenLines ts)
          o.lines := by
  have read : tokenize "f(,1,\n)\nx" = .ok
      [.leaf (.name "f") ⟨⟨0, 1⟩, 1⟩,
        .group .paren [.tuple [[], [.leaf (.number "1") ⟨⟨3, 4⟩, 1⟩], []] ⟨⟨2, 4⟩, 1⟩]
          ⟨⟨1, 7⟩, 1⟩,
        .leaf .newline ⟨⟨7, 8⟩, 2⟩, .leaf (.name "x") ⟨⟨8, 9⟩, 3⟩,
        .leaf .endMarker ⟨⟨9, 9⟩, 3⟩] := by
    with_unfolding_all rfl
  exact ⟨_, read, spans_nested _ _ _ read⟩

end Analyzer

end ExprCheck
