import Mathlib.Data.String.Basic
import ExprCheck.Proofs.Lexeme.Alone
import ExprCheck.Proofs.Lexeme.Layout
/-! The text that lexemes take up. Every byte of a source belongs to a lexeme or to a gap in front
of, between or behind lexemes. Main statement: a lexeme is displayed as the text that it takes up, a
line feed apart, and the gaps are blank. So nothing of a source is lost. -/
namespace ExprCheck

open Lexeme

/-- The text of a source between two byte offsets. -/
def Span.text (s : Span) (source : String) : String :=
  String.Pos.Raw.extract source ⟨s.start⟩ ⟨s.stop⟩

/-- What spans in order leave out between two offsets. -/
def gaps (start stop : Nat) : List Span → List Span
  | [] => [⟨start, stop⟩]
  | s :: rest => ⟨start, s.start⟩ :: gaps s.stop stop rest

theorem utf8Len_eq_byteLength (cs : List Char) : String.utf8Len cs = byteLength cs := by
  rw [← String.utf8ByteSize_ofList, ← byteLength_toList, String.toList_ofList]

/-- The characters stand in the source, and the span is where they do. -/
def Span.Marks (s : Span) (source : String) (text : List Char) : Prop :=
  ∃ before after, source.toList = before ++ text ++ after ∧
    s = ⟨byteLength before, byteLength (before ++ text)⟩

namespace Span.Marks

variable {s : Span} {source : String} {text : List Char}

theorem text_eq (h : s.Marks source text) : s.text source = String.ofList text := by
  obtain ⟨before, after, parts, rfl⟩ := h
  have whole : source = String.ofList (before ++ text ++ after) := by
    rw [← parts, String.ofList_toList]
  have cut := String.extract_of_valid before text after
  rwa [← whole, utf8Len_eq_byteLength, utf8Len_eq_byteLength, ← byteLength_append] at cut

theorem inside (h : s.Marks source text) : s.stop ≤ source.utf8ByteSize := by
  obtain ⟨before, after, parts, rfl⟩ := h
  rw [← byteLength_toList, parts, byteLength_append (before ++ text) after]
  exact Nat.le_add_right _ _

theorem width_eq (h : s.Marks source text) : s.width = byteLength text := by
  obtain ⟨before, after, parts, rfl⟩ := h
  simp [Span.width, byteLength_append]

end Span.Marks

namespace Lexeme

def text : Lexeme → String
  | newline => "\n"
  | l => l.display

theorem text_eq_display {l : Lexeme} (other : l ≠ newline) : l.text = l.display := by
  cases l <;> first | rfl | exact absurd rfl other

theorem text_of_start {first : Char} {cs : List Char} {make : String → Lexeme} {more : Nat}
    (starts : start first cs = .lexeme make more) :
    (make (String.ofList (first :: cs.take more))).text =
      String.ofList (first :: cs.take more) := by
  by_cases feed : first = '\n'
  · subst feed
    rw [start_newline] at starts
    cases starts
    rfl
  · rw [text_eq_display (make_ne_newline starts feed _), display_of_start starts feed]

namespace Scanned

variable {source : String} {cs : List Char} {ls : List (Spanned Lexeme)}

theorem marks {passed : List Char} (scanned : Scanned (byteLength passed) cs ls)
    (whole : source.toList = passed ++ cs) :
    ∀ l ∈ ls, l.span.Marks source l.value.text.toList := by
  generalize start : byteLength passed = offset at scanned
  induction scanned generalizing passed with
  | done offset => exact nofun
  | @blank offset first cs ls skipped below ih =>
    have parts : source.toList = passed ++ [first] ++ cs := by simp [whole]
    exact ih parts (by simp [byteLength_append, byteLength, start])
  | @lexeme offset first cs ls make more kept starts below ih =>
    have parts : source.toList = passed ++ (first :: cs.take more) ++ cs.drop more := by
      rw [whole, List.append_assoc, List.cons_append, List.take_append_drop]
    refine List.forall_mem_cons.mpr ⟨⟨passed, cs.drop more, ?_, ?_⟩, ?_⟩
    · rw [text_of_start starts, String.toList_ofList, parts]
    · rw [text_of_start starts, String.toList_ofList, byteLength_append, start]
    · exact ih parts (by rw [byteLength_append, start])

theorem gaps_blank {before skipped : List Char}
    (scanned : Scanned (byteLength (before ++ skipped)) cs ls)
    (whole : source.toList = before ++ skipped ++ cs) (blank : ∀ c ∈ skipped, isBlank c = true) :
    ∀ gap ∈ gaps (byteLength before) source.utf8ByteSize (ls.map Spanned.span),
      ∃ text, gap.Marks source text ∧ ∀ c ∈ text, isBlank c = true := by
  generalize start : byteLength (before ++ skipped) = offset at scanned
  induction scanned generalizing before skipped with
  | done offset =>
    refine List.forall_mem_singleton.mpr ⟨skipped, ⟨before, [], whole, ?_⟩, blank⟩
    rw [List.append_nil] at whole
    rw [← byteLength_toList, whole]
  | @blank offset first cs ls isBlank below ih =>
    -- The blank belongs to the gap in front of the next lexeme.
    have parts : source.toList = before ++ (skipped ++ [first]) ++ cs := by simp [whole]
    refine ih parts ?_ ?_
    · exact List.forall_mem_append.mpr ⟨blank, List.forall_mem_singleton.mpr isBlank⟩
    · rw [← start, ← List.append_assoc, byteLength_append (before ++ skipped) [first]]
      rfl
  | @lexeme offset first cs ls make more kept starts below ih =>
    have parts : source.toList =
        before ++ skipped ++ (first :: cs.take more) ++ [] ++ cs.drop more := by
      rw [whole, List.append_nil, List.append_assoc _ (first :: _), List.cons_append,
        List.take_append_drop]
    have stop : byteLength (before ++ skipped ++ (first :: cs.take more)) =
        offset + byteLength (first :: cs.take more) := by
      rw [byteLength_append, start]
    refine List.forall_mem_cons.mpr ⟨⟨skipped, ⟨before, first :: cs, whole, ?_⟩, blank⟩, ?_⟩
    · rw [start]
    · have behind := ih parts nofun (by rw [List.append_nil, stop])
      rwa [stop] at behind

end Scanned

end Lexeme

theorem marks_of_scan {source : String} {ls : List (Spanned Lexeme)}
    (scanned : Lexeme.scan source = .ok ls) :
    ∀ l ∈ ls, l.span.Marks source l.value.text.toList := by
  have read : Lexeme.Scanned (byteLength []) source.toList ls :=
    Lexeme.scanFrom_eq_ok_iff.mp scanned
  exact read.marks rfl

theorem inside_of_scan {source : String} {ls : List (Spanned Lexeme)}
    (scanned : Lexeme.scan source = .ok ls) : ∀ l ∈ ls, l.span.stop ≤ source.utf8ByteSize :=
  fun l mem => (marks_of_scan scanned l mem).inside

/-- The lexemes show all of the source but for blanks. -/
structure Lossless (source : String) (ls : List (Spanned Lexeme)) : Prop extends InOrder ls where
  inside : ∀ l ∈ ls, l.span.stop ≤ source.utf8ByteSize
  shown : ∀ l ∈ ls, l.value ≠ .newline → l.value.display = l.span.text source
  feed : ∀ l ∈ ls, l.value = .newline → l.span.width = 1 ∧ l.span.text source = "\n"
  blank : ∀ gap ∈ gaps 0 source.utf8ByteSize (ls.map Spanned.span),
    ∀ c ∈ (gap.text source).toList, c ∈ [' ', '\t', '\r', '\x0c']

/-- The spans of the lexemes of a source are not empty, lie in it and follow each other. Each lexeme
is displayed as the text of its span, but a line feed, which is that single byte. Only spaces, tabs,
carriage returns and form feeds stand in front of, between and behind them. -/
theorem lossless_of_scan (source : String) (ls : List (Spanned Lexeme))
    (scanned : Lexeme.scan source = .ok ls) : Lossless source ls := by
  have read : Lexeme.Scanned (byteLength []) source.toList ls :=
    Lexeme.scanFrom_eq_ok_iff.mp scanned
  have marks := marks_of_scan scanned
  refine ⟨read.inOrder, inside_of_scan scanned, ?_, ?_, ?_⟩
  · intro l mem other
    rw [(marks l mem).text_eq, String.ofList_toList, Lexeme.text_eq_display other]
  · intro l mem feed
    have marked := marks l mem
    rw [feed] at marked
    exact ⟨marked.width_eq, marked.text_eq⟩
  · intro gap mem c inGap
    have start : Lexeme.Scanned (byteLength ([] ++ [])) source.toList ls := read
    obtain ⟨text, marked, blank⟩ := start.gaps_blank rfl nofun gap mem
    rw [marked.text_eq, String.toList_ofList] at inGap
    have skipped := blank c inGap
    simp only [Lexeme.isBlank, Bool.or_eq_true, beq_iff_eq] at skipped
    simpa [or_assoc] using skipped

/- A character of two bytes in a string, a comment, and blanks of three kinds. -/
theorem lossless_stringAndComment :
    Lexeme.scan "\t'ß' # ß\r\n 1" = .ok [⟨.str "'ß'", ⟨1, 5⟩⟩, ⟨.comment "# ß\r", ⟨6, 11⟩⟩,
      ⟨.newline, ⟨11, 12⟩⟩, ⟨.number "1", ⟨13, 14⟩⟩] ∧
    Lossless "\t'ß' # ß\r\n 1" [⟨.str "'ß'", ⟨1, 5⟩⟩, ⟨.comment "# ß\r", ⟨6, 11⟩⟩,
      ⟨.newline, ⟨11, 12⟩⟩, ⟨.number "1", ⟨13, 14⟩⟩] := by
  have scanned : Lexeme.scan "\t'ß' # ß\r\n 1" = .ok [⟨.str "'ß'", ⟨1, 5⟩⟩,
      ⟨.comment "# ß\r", ⟨6, 11⟩⟩, ⟨.newline, ⟨11, 12⟩⟩, ⟨.number "1", ⟨13, 14⟩⟩] := by
    with_unfolding_all rfl
  exact ⟨scanned, lossless_of_scan _ _ scanned⟩

end ExprCheck
