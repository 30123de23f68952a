import ExprCheck.Proofs.Lexeme.Cut
import ExprCheck.Proofs.Lexeme.Starts
import ExprCheck.Proofs.Shift
/-! Lexemes and line feeds. A lexeme lies within its line, or is a line feed. So a text is scanned
the same way whether it ends or a line feed follows it, and a lexeme is a line feed exactly if its
text holds one. -/
namespace ExprCheck.Lexeme

/-! ## Recognisers -/

/-- The recogniser takes some of the text, and a line feed stops it as the end of the text does. -/
structure OnLine (r : List Char → Nat) : Prop where
  stops : ∀ (cs rest : List Char), r (cs ++ '\n' :: rest) = r cs
  within : ∀ cs : List Char, r cs ≤ cs.length

theorem OnLine.inline {r : List Char → Nat} (h : OnLine r) (cs : List Char) :
    '\n' ∉ cs.take (r cs) := by
  intro taken
  obtain ⟨line, rest, rfl, noFeed⟩ := List.eq_append_cons_of_mem (List.mem_of_mem_take taken)
  rw [h.stops, List.take_append_of_le_length (h.within line)] at taken
  exact noFeed (List.mem_of_mem_take taken)

theorem Settled.onLine {r : List Char → Nat} (h : Settled r) : OnLine r where
  stops cs rest := by
    have feed : '\n' ∈ stops := by decide
    have cut := h.cut cs cs.length ('\n' :: rest) (h.within cs) (atStop_cons feed rest)
    rwa [List.take_length] at cut
  within := h.within

theorem comment_onLine : OnLine (runLength (· != '\n')) where
  stops cs rest := by
    unfold runLength
    rw [List.takeWhile_append]
    split
    · rename_i whole
      simp [whole]
    · rfl
  within cs := (List.takeWhile_sublist _).length_le

theorem quoted_feed {quote : Char} (marks : quote ≠ '\n') (cs rest : List Char) :
    quoted quote (cs ++ '\n' :: rest) = quoted quote cs := by
  fun_induction quoted quote cs with
  | case1 => simp [quoted_cons, marks.symm]
  | case2 tail => simp [quoted]
  | case3 c tail notFeed ih => simp [quoted, notFeed, ih]
  | case4 => simp [quoted]
  | case5 tail escapes ends => simp [quoted_cons (ne_backslash escapes ends)]
  | case6 tail escapes ends notQuote => simp [quoted_cons, notQuote]
  | case7 c tail escapes ends notQuote notFeed ih =>
    simp [quoted_cons (ne_backslash escapes ends), notQuote, notFeed, ih]

theorem quoted_within (quote : Char) (cs : List Char) :
    (quoted quote cs).length ≤ cs.length := by
  fun_induction quoted quote cs with
  | case3 _ tail _ ih | case7 _ tail _ _ _ _ ih =>
    simp only [Quoted.length_after, List.length_cons]
    omega
  | _ => simp [Quoted.length]

theorem ne_feed_of_isQuote {c : Char} (marks : isQuote c = true) : c ≠ '\n' := by
  rintro rfl
  cases marks

theorem quotedFrom_feed (first : Char) (cs rest : List Char) :
    quotedFrom first (cs ++ '\n' :: rest) = quotedFrom first cs := by
  unfold quotedFrom
  split
  · rename_i marks
    rw [quoted_feed (ne_feed_of_isQuote marks)]
  · cases cs with
    | nil => simp [isQuote]
    | cons q tail =>
      by_cases marks : isQuote q = true
      · simp [quoted_feed (ne_feed_of_isQuote marks)]
      · simp [marks]

theorem quotedFrom_within {first : Char} {cs : List Char} {q : Quoted}
    (found : quotedFrom first cs = some q) : q.length ≤ cs.length := by
  unfold quotedFrom at found
  split at found
  · cases found
    exact quoted_within first cs
  · split at found
    · rename_i quote rest
      split at found
      · cases found
        have inner := quoted_within quote rest
        simp only [Quoted.length_after, List.length_cons]
        omega
      · cases found
    · cases found

/-! ## Lexemes -/

def Start.more : Start → Nat
  | lexeme _ more | fault more => more

theorem start_feed (first : Char) (cs rest : List Char) :
    start first (cs ++ '\n' :: rest) = start first cs := by
  unfold start
  rw [quotedFrom_feed, (numberLength_settled first).onLine.stops, words_settled.onLine.stops,
    comment_onLine.stops]
  cases cs with
  | nil => simp [isDoubleOp]
  | cons second tail => rfl

theorem start_within (first : Char) (cs : List Char) : (start first cs).more ≤ cs.length := by
  unfold start
  split
  · rename_i found
    exact quotedFrom_within found
  · rename_i found
    exact quotedFrom_within found
  · split
    · exact (numberLength_settled first).within cs
    split
    · exact words_settled.within cs
    split
    · exact comment_onLine.within cs
    split
    · exact Nat.zero_le _
    cases cs with
    | nil =>
      simp only [List.head?_nil]
      split <;> exact Nat.le_refl 0
    | cons second tail =>
      simp only [List.head?_cons]
      split
      · exact Nat.succ_le_succ (Nat.zero_le _)
      · split <;> exact Nat.zero_le _

theorem start_onLine (first : Char) : OnLine fun cs => (start first cs).more where
  stops cs rest := by rw [start_feed]
  within cs := start_within first cs

theorem eq_feed_of_punctuation {c : Char} (found : punctuation? c = some newline) : c = '\n' := by
  unfold punctuation? at found
  split at found <;> cases found
  rfl

theorem start_newline (cs : List Char) : start '\n' cs = .lexeme (fun _ => newline) 0 := by
  cases cs <;> rfl

theorem make_ne_newline {first : Char} {cs : List Char} {make : String → Lexeme} {more : Nat}
    (starts : start first cs = .lexeme make more) (other : first ≠ '\n') (text : String) :
    make text ≠ newline := by
  intro made
  -- Only punctuation makes a lexeme that does not carry its text.
  cases starts_of_start starts with
  | punctuation found => exact other (eq_feed_of_punctuation (found.trans (congrArg some made)))
  | _ => cases made

/-- A lexeme is a line feed if it starts with one, and no other lexeme holds any. -/
theorem feeds_of_start {first : Char} {cs : List Char} {make : String → Lexeme} {more : Nat}
    (starts : start first cs = .lexeme make more) (text : String) :
    (first :: cs.take more).count '\n' = if make text = newline then 1 else 0 := by
  have noFeed : (cs.take more).count '\n' = 0 := by
    have inline := (start_onLine first).inline cs
    rw [starts] at inline
    exact List.count_eq_zero.mpr inline
  by_cases feed : first = '\n'
  · subst feed
    rw [start_newline] at starts
    cases starts
    simp
  · rw [List.count_cons_of_ne feed, noFeed, if_neg (make_ne_newline starts feed text)]

/-! ## Scanning -/

theorem byteLength_append (cs ds : List Char) :
    byteLength (cs ++ ds) = byteLength cs + byteLength ds := by
  induction cs with
  | nil => simp [byteLength]
  | cons c cs ih =>
    simp only [List.cons_append, byteLength, ih]
    omega

theorem byteLength_toList (text : String) : byteLength text.toList = text.utf8ByteSize := by
  have ofList (cs : List Char) : byteLength cs = (String.ofList cs).utf8ByteSize := by
    induction cs with
    | nil => rfl
    | cons c cs ih =>
      have split : String.ofList (c :: cs) = String.singleton c ++ String.ofList cs := by
        rw [String.singleton_eq_ofList, ← String.ofList_append, List.singleton_append]
      rw [split, String.utf8ByteSize_append, String.utf8ByteSize_singleton, byteLength, ih]
  rw [ofList, String.ofList_toList]

theorem exists_spanned (values : List Lexeme) :
    ∃ ls : List (Spanned Lexeme), ls.map Spanned.value = values :=
  ⟨values.map fun value => ⟨value, .point 0⟩, by simp [Function.comp_def]⟩

/-- From a byte offset on, the characters are scanned to these lexemes. -/
inductive Scanned : Nat → List Char → List (Spanned Lexeme) → Prop
  | done (offset : Nat) : Scanned offset [] []
  | blank {offset : Nat} {first : Char} {cs : List Char} {ls : List (Spanned Lexeme)}
      (skipped : isBlank first = true) (below : Scanned (offset + first.utf8Size) cs ls) :
      Scanned offset (first :: cs) ls
  | lexeme {offset : Nat} {first : Char} {cs : List Char} {ls : List (Spanned Lexeme)}
      {make : String → Lexeme} {more : Nat} (kept : isBlank first = false)
      (starts : start first cs = .lexeme make more)
      (below : Scanned (offset + byteLength (first :: cs.take more)) (cs.drop more) ls) :
      Scanned offset (first :: cs)
        (⟨make (String.ofList (first :: cs.take more)),
          ⟨offset, offset + byteLength (first :: cs.take more)⟩⟩ :: ls)

/-- The line that is counted along matters to faults only. -/
theorem scanFrom_eq_ok_iff {offset line : Nat} {cs : List Char} {ls : List (Spanned Lexeme)} :
    scanFrom offset line cs = .ok ls ↔ Scanned offset cs ls := by
  constructor
  · intro scanned
    fun_induction scanFrom offset line cs generalizing ls with
    | case1 offset line =>
      cases scanned
      exact .done offset
    | case2 offset line first cs skipped ih => exact .blank skipped (ih scanned)
    | case3 offset line first cs kept make more starts text stop lexeme line' rest below =>
      rename_i ih
      cases scanned
      exact .lexeme (by simpa using kept) starts (ih below)
    | case4 => cases scanned
    | case5 => cases scanned
  · intro scanned
    induction scanned generalizing line with
    | done offset => rw [scanFrom]
    | blank skipped below ih => rw [scanFrom, if_pos skipped, ih]
    | lexeme kept starts below ih =>
      rw [scanFrom, if_neg (by simp [kept]), starts]
      simp only [ih]

namespace Scanned

theorem append {offset : Nat} {cs rest : List Char} {ls ms : List (Spanned Lexeme)}
    (first : Scanned offset cs ls) (second : Scanned (offset + byteLength cs) ('\n' :: rest) ms) :
    Scanned offset (cs ++ '\n' :: rest) (ls ++ ms) := by
  induction first with
  | done offset => exact second
  | blank skipped below ih =>
    refine .blank skipped (ih ?_)
    rwa [Nat.add_assoc]
  | @lexeme offset first cs ls make more kept starts below ih =>
    have within : more ≤ cs.length := by
      have bound := start_within first cs
      rwa [starts] at bound
    have taken : (cs ++ '\n' :: rest).take more = cs.take more :=
      List.take_append_of_le_length within
    have dropped : (cs ++ '\n' :: rest).drop more = cs.drop more ++ '\n' :: rest :=
      List.drop_append_of_le_length within
    have text : byteLength cs = byteLength (cs.take more) + byteLength (cs.drop more) := by
      rw [← byteLength_append, List.take_append_drop]
    have tail := ih (by simpa [byteLength, text, Nat.add_assoc] using second)
    rw [← dropped] at tail
    have whole := lexeme kept ((start_feed first cs rest).trans starts) (taken.symm ▸ tail)
    rwa [taken] at whole

theorem feed {offset : Nat} {cs : List Char} {ls : List (Spanned Lexeme)}
    (below : Scanned (offset + 1) cs ls) :
    Scanned offset ('\n' :: cs) (⟨newline, ⟨offset, offset + 1⟩⟩ :: ls) :=
  .lexeme rfl (start_newline cs) below

theorem moved {offset : Nat} {cs : List Char} {ls : List (Spanned Lexeme)}
    (scanned : Scanned offset cs ls) (d : Shift) :
    Scanned (d.bytes + offset) cs (ls.map (Spanned.moved d)) := by
  induction scanned with
  | done offset => exact .done _
  | blank skipped below ih => exact .blank skipped (by rwa [Nat.add_assoc])
  | lexeme kept starts below ih =>
    rw [← Nat.add_assoc] at ih
    simpa [Spanned.moved, Span.moved, Nat.add_assoc] using lexeme kept starts ih

theorem newlines {offset : Nat} {cs : List Char} {ls : List (Spanned Lexeme)}
    (scanned : Scanned offset cs ls) :
    ls.countP (fun l => l.value = newline) = cs.count '\n' := by
  induction scanned with
  | done offset => rfl
  | @blank offset first cs ls skipped below ih =>
    have other : first ≠ '\n' := by
      rintro rfl
      cases skipped
    rw [ih, List.count_cons_of_ne other]
  | @lexeme offset first cs ls make more kept starts below ih =>
    have text := feeds_of_start starts (String.ofList (first :: cs.take more))
    have parts : (first :: cs).count '\n' =
        (first :: cs.take more).count '\n' + (cs.drop more).count '\n' := by
      rw [← List.count_append, List.cons_append, List.take_append_drop]
    rw [parts, text, List.countP_cons, ih]
    simp [Nat.add_comm]

theorem join {first second : String} {ls ms : List (Spanned Lexeme)}
    (one : Scanned 0 first.toList ls) (two : Scanned 0 second.toList ms) :
    Scanned 0 (first ++ "\n" ++ second).toList
      (ls ++ ⟨newline, ⟨first.utf8ByteSize, first.utf8ByteSize + 1⟩⟩ ::
        ms.map (Spanned.moved (.past first))) := by
  have chars : (first ++ "\n" ++ second).toList = first.toList ++ '\n' :: second.toList := by
    simp
  have behind := two.moved (.past first)
  rw [chars]
  apply one.append
  rw [Nat.zero_add, byteLength_toList]
  exact behind.feed

end Scanned

end ExprCheck.Lexeme
