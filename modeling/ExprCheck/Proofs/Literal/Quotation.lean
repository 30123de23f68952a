import ExprCheck.Proofs.Lexeme.Lossless
import ExprCheck.Proofs.Literal
/-! Strings as they are written. A quotation says what a string is made of: a letter, if there is
one, and pieces between two equal quotes. Main statement: the strings that are read in sources are
the quotations, the value of a quotation is what its quotes enclose, and no text at all is cut
inside a character to find it. -/
namespace ExprCheck

open Lexeme

/-! ## Quotations -/

/-- A character that stands for itself, or a backslash and the character behind it. -/
inductive QuotedPiece (quote : Char) where
  | plain (c : Char) (noQuote : c ≠ quote) (noEscape : c ≠ '\\') (noFeed : c ≠ '\n')
  | escape (c : Char) (noFeed : c ≠ '\n')

def QuotedPiece.chars {quote : Char} : QuotedPiece quote → List Char
  | plain c .. => [c]
  | escape c _ => ['\\', c]

structure Quotation where
  letter? : Option Char
  quote : Char
  pieces : List (QuotedPiece quote)
  isLetter : ∀ c ∈ letter?, c.isAlpha = true
  isQuote : Lexeme.isQuote quote = true

namespace Quotation

def body (s : Quotation) : List Char :=
  s.pieces.flatMap QuotedPiece.chars

def chars (s : Quotation) : List Char :=
  s.letter?.toList ++ s.quote :: (s.body ++ [s.quote])

def text (s : Quotation) : String :=
  String.ofList s.chars

theorem quote_not_mem_letter (s : Quotation) : s.quote ∉ s.letter?.toList := by
  intro mem
  have letter := s.isLetter s.quote (Option.mem_toList.mp mem)
  have quote := s.isQuote
  rw [Lexeme.isQuote, beq_false_of_class letter rfl, beq_false_of_class letter rfl] at quote
  cases quote

theorem markedTy_letter (s : Quotation) :
    markedTy s.letter?.toList =
      if s.letter? = some 'c' ∨ s.letter? = some 'C' then .char else .str := by
  cases s.letter? with
  | none => rfl
  | some p => simp [markedTy]

theorem unquote_text (s : Quotation) :
    unquote s.text = (String.ofList s.body,
      if s.letter? = some 'c' ∨ s.letter? = some 'C' then .char else .str) := by
  rw [← markedTy_letter]
  exact unquote_of_chars s.quote_not_mem_letter String.toList_ofList

end Quotation

/-! ## What is read as a string -/

namespace Lexeme

theorem ne_backslash_of_isQuote {c : Char} (marks : isQuote c = true) : c ≠ '\\' := by
  rintro rfl
  cases marks

theorem quoted_pieces {quote : Char} (marks : isQuote quote = true)
    (pieces : List (QuotedPiece quote)) (rest : List Char) :
    quoted quote (pieces.flatMap QuotedPiece.chars ++ quote :: rest) =
      .closed ((pieces.flatMap QuotedPiece.chars).length + 1) := by
  induction pieces with
  | nil => simp [quoted_cons (ne_backslash_of_isQuote marks)]
  | cons piece pieces ih =>
    cases piece with
    | plain c noQuote noEscape noFeed =>
      simp [QuotedPiece.chars, quoted_cons noEscape, noQuote, noFeed, ih, Quoted.after]
    | escape c noFeed => simp [QuotedPiece.chars, quoted, noFeed, ih, Quoted.after]

theorem exists_pieces {quote : Char} {cs : List Char} {n : Nat}
    (closed : quoted quote cs = .closed n) :
    ∃ pieces : List (QuotedPiece quote),
      cs.take n = pieces.flatMap QuotedPiece.chars ++ [quote] := by
  fun_induction quoted quote cs generalizing n with
  | case1 => cases closed
  | case2 => cases closed
  | case3 c tail noFeed ih =>
    obtain ⟨j, below, rfl⟩ := Quoted.of_after_eq_closed closed
    obtain ⟨pieces, parts⟩ := ih below
    exact ⟨.escape c noFeed :: pieces, by simp [QuotedPiece.chars, parts]⟩
  | case4 => cases closed
  | case5 tail escapes ends =>
    cases closed
    exact ⟨[], rfl⟩
  | case6 => cases closed
  | case7 c tail escapes ends noQuote noFeed ih =>
    obtain ⟨j, below, rfl⟩ := Quoted.of_after_eq_closed closed
    obtain ⟨pieces, parts⟩ := ih below
    exact ⟨.plain c noQuote (ne_backslash escapes ends) noFeed :: pieces,
      by simp [QuotedPiece.chars, parts]⟩

theorem start_quotedFrom {first : Char} {cs : List Char} {more : Nat}
    (closed : quotedFrom first cs = some (.closed more)) :
    start first cs = .lexeme str more := by
  simp only [start, closed]

end Lexeme

namespace Quotation

theorem quotedFrom_chars (s : Quotation) :
    ∃ first cs, s.chars = first :: cs ∧ (first.isAlpha || Lexeme.isQuote first) = true ∧
      quotedFrom first cs = some (.closed cs.length) := by
  have inner : quoted s.quote (s.body ++ [s.quote]) = .closed (s.body ++ [s.quote]).length := by
    rw [List.length_append]
    exact quoted_pieces s.isQuote s.pieces []
  cases letter : s.letter? with
  | none =>
    refine ⟨s.quote, s.body ++ [s.quote], by simp [chars, letter], by simp [s.isQuote], ?_⟩
    simp [quotedFrom, s.isQuote, inner]
  | some p =>
    have isLetter : p.isAlpha = true := s.isLetter p letter
    have noQuote : Lexeme.isQuote p = false := by
      rw [Lexeme.isQuote, beq_false_of_class isLetter rfl, beq_false_of_class isLetter rfl,
        Bool.or_self]
    refine ⟨p, s.quote :: (s.body ++ [s.quote]), by simp [chars, letter], by simp [isLetter], ?_⟩
    simp [quotedFrom, noQuote, isLetter, s.isQuote, inner, Quoted.after]

theorem exists_quotation {first : Char} {cs : List Char}
    (closed : quotedFrom first cs = some (.closed cs.length)) :
    ∃ s : Quotation, s.chars = first :: cs := by
  unfold quotedFrom at closed
  split at closed
  · rename_i marks
    obtain ⟨pieces, parts⟩ := exists_pieces (Option.some.inj closed)
    rw [List.take_length] at parts
    exact ⟨⟨none, first, pieces, nofun, marks⟩, by rw [parts]; rfl⟩
  · split at closed
    · rename_i quote rest
      split at closed
      · rename_i letter
        obtain ⟨isLetter, marks⟩ := Bool.and_eq_true_iff.mp letter
        obtain ⟨j, below, length⟩ := Quoted.of_after_eq_closed (Option.some.inj closed)
        obtain rfl : rest.length = j := Nat.succ.inj length
        obtain ⟨pieces, parts⟩ := exists_pieces below
        rw [List.take_length] at parts
        refine ⟨⟨some first, quote, pieces, ?_, marks⟩, by rw [parts]; rfl⟩
        intro c same
        cases same
        exact isLetter
      · cases closed
    · cases closed

/-- The strings that are read in sources are the texts of quotations. -/
theorem produced_str_iff {raw : String} :
    (Lexeme.str raw).Produced ↔ ∃ s : Quotation, s.text = raw := by
  rw [produced_iff_alone (by simp) (by simp)]
  constructor
  · rintro ⟨first, cs, make, chars, kept, noComment, starts, made⟩
    obtain ⟨-, closed⟩ := (starts_of_start starts).of_str made
    obtain ⟨s, same⟩ := exists_quotation closed
    exact ⟨s, String.toList_injective (by rw [text, String.toList_ofList, same, ← chars]; rfl)⟩
  · rintro ⟨s, rfl⟩
    obtain ⟨first, cs, chars, starting, closed⟩ := s.quotedFrom_chars
    have other {c : Char} (outside : (c.isAlpha || Lexeme.isQuote c) = false) :
        (first == c) = false :=
      beq_false_of_class (p := fun c => c.isAlpha || Lexeme.isQuote c) starting outside
    refine ⟨first, cs, Lexeme.str, String.toList_ofList.trans chars, ?_, ?_,
      start_quotedFrom closed, rfl⟩
    · rw [isBlank, other rfl, other rfl, other rfl, other rfl]
      rfl
    · rintro rfl
      cases starting

end Quotation

/-! ## Slices -/

/-- The text between two byte offsets, if both are at the edges of characters and in order. -/
def slice? (text : String) (s : Span) : Option String :=
  if (⟨s.start⟩ : String.Pos.Raw).IsValid text ∧ (⟨s.stop⟩ : String.Pos.Raw).IsValid text ∧
      s.start ≤ s.stop then
    some (s.text text)
  else none

/-- The byte offset of the first such character. -/
def byteIndex? (c : Char) (text : String) : Option Nat :=
  if c ∈ text.toList then some (byteLength (text.toList.takeWhile (· != c))) else none

/-- What stands behind a first quote and in front of a last one. -/
def enclosed? (raw : String) (quote : Char) (front : Nat) : Option String :=
  let back := raw.utf8ByteSize - quote.utf8Size
  if front < back then slice? raw ⟨front + quote.utf8Size, back⟩ else some ""

/-- The value and the type of a string, cut out of its text at byte offsets. There is no answer if
one of the cuts is not possible. -/
def unquoteAt? (raw : String) : Option (String × Ty) :=
  match raw.toList.getLast? with
  | none => some ("", .str)
  | some quote =>
      match byteIndex? quote raw with
      | none => some ("", .str)
      | some front => do
          let marks ← slice? raw ⟨0, front⟩
          let value ← enclosed? raw quote front
          some (value, if marks.toList.any fun c => c == 'c' || c == 'C' then .char else .str)

theorem isValid_byteLength {text : String} {before after : List Char}
    (parts : text.toList = before ++ after) :
    (⟨byteLength before⟩ : String.Pos.Raw).IsValid text := by
  refine String.Pos.Raw.isValid_iff_exists_append.mpr ⟨.ofList before, .ofList after, ?_, ?_⟩
  · rw [← String.ofList_append, ← parts, String.ofList_toList]
  · rw [String.rawEndPos, ← byteLength_toList, String.toList_ofList]

theorem Span.Marks.slice?_eq {s : Span} {source : String} {text : List Char}
    (h : s.Marks source text) : slice? source s = some (String.ofList text) := by
  have whole := h.text_eq
  obtain ⟨before, after, parts, rfl⟩ := h
  have start := isValid_byteLength (parts.trans (List.append_assoc before text after))
  have stop := isValid_byteLength parts
  have order : byteLength before ≤ byteLength (before ++ text) := by
    rw [byteLength_append]
    exact Nat.le_add_right _ _
  rw [slice?, if_pos ⟨start, stop, order⟩, whole]

theorem enclosed?_eq {raw : String} {marks rest : List Char} {quote : Char}
    (last : raw.toList.getLast? = some quote) (first : quote ∉ marks)
    (parts : raw.toList = marks ++ quote :: rest) :
    ∃ value, enclosed? raw quote (byteLength marks) = some value ∧
      unquote raw = (value, markedTy marks) := by
  have size : raw.utf8ByteSize = byteLength marks + (quote.utf8Size + byteLength rest) := by
    rw [← byteLength_toList, parts, byteLength_append]
    rfl
  rcases List.eq_nil_or_concat rest with rfl | ⟨body, c, rfl⟩
  · -- The two quotes are one character, so the value is empty.
    have back : raw.utf8ByteSize - quote.utf8Size = byteLength marks := by
      rw [byteLength] at size
      omega
    refine ⟨"", ?_, unquote_of_single first parts⟩
    rw [enclosed?, back, if_neg (Nat.lt_irrefl _)]
  · have whole : raw.toList = marks ++ [quote] ++ body ++ [c] := by simp [parts]
    obtain rfl : c = quote := by
      rw [whole, List.getLast?_concat] at last
      exact Option.some.inj last
    have start : byteLength (marks ++ [c]) = byteLength marks + c.utf8Size := by
      rw [byteLength_append]
      rfl
    have back : raw.utf8ByteSize - c.utf8Size = byteLength (marks ++ [c] ++ body) := by
      rw [← byteLength_toList, whole, byteLength_append _ [c]]
      exact Nat.add_sub_cancel _ c.utf8Size
    refine ⟨String.ofList body, ?_, unquote_of_chars first (by simp [parts])⟩
    have inside : byteLength marks < raw.utf8ByteSize - c.utf8Size := by
      have wide := c.utf8Size_pos
      rw [back, byteLength_append, start]
      omega
    rw [enclosed?, if_pos inside, back, ← start]
    exact Span.Marks.slice?_eq ⟨marks ++ [c], [c], whole, rfl⟩

/-- Every text can be cut where it has to be, and what is cut out is its value. -/
theorem unquoteAt?_eq (raw : String) : unquoteAt? raw = some (unquote raw) := by
  cases last : raw.toList.getLast? with
  | none => simp only [unquoteAt?, unquote, last]
  | some quote =>
    obtain ⟨marks, rest, parts, first⟩ := List.eq_append_cons_of_mem (List.mem_of_getLast? last)
    obtain ⟨value, cut, same⟩ := enclosed?_eq last first parts
    have index : byteIndex? quote raw = some (byteLength marks) := by
      rw [byteIndex?, if_pos (List.mem_of_getLast? last), parts, takeWhile_marks first]
    have before : slice? raw ⟨0, byteLength marks⟩ = some (String.ofList marks) :=
      Span.Marks.slice?_eq ⟨[], quote :: rest, parts, rfl⟩
    simp only [unquoteAt?, last, index, before, cut, same, Option.bind_eq_bind, Option.bind_some,
      String.toList_ofList]
    rfl

/-- The strings that are read in sources are the quotations, and what is found for a quotation is
the text between its quotes, as a `char` behind a `c` of either case and as a `str` otherwise. What
is found for any text at all can be cut out of it without breaking a character. -/
theorem values_of_strings :
    (∀ raw, (Lexeme.str raw).Produced ↔ ∃ s : Quotation, s.text = raw) ∧
    (∀ s : Quotation, unquote s.text = (String.ofList s.body,
      if s.letter? = some 'c' ∨ s.letter? = some 'C' then .char else .str)) ∧
    ∀ raw, unquoteAt? raw = some (unquote raw) :=
  ⟨fun _ => Quotation.produced_str_iff, Quotation.unquote_text, unquoteAt?_eq⟩

/- A cut may fail, and the last character may be no quote. -/
example : slice? "ß" ⟨0, 1⟩ = none ∧ unquoteAt? "c’ß’" = some ("ß", .char) := ⟨by decide, rfl⟩

end ExprCheck
