import ExprCheck.Proofs.Literal.Numeral
import ExprCheck.Proofs.Literal.Quotation
/-! Scanning takes the longest lexeme. `Written` says how each kind of lexeme is written, whatever
stands around it. Main statement: the lexemes that a text is scanned to are those that are found by
taking the longest one at each position, and a text is refused exactly if that finds none. -/
namespace ExprCheck.Lexeme

/-- How the lexemes of each kind are written. -/
inductive Written : Lexeme → List Char → Prop
  | str (s : Quotation) : Written (.str s.text) s.chars
  | number (n : Numeral) : Written (.number n.text) n.chars
  | name {first : Char} {rest : List Char} (starts : isWordStart first = true)
      (words : ∀ c ∈ rest, isWord c = true) :
      Written (.name (String.ofList (first :: rest))) (first :: rest)
  | doubleOp {first second : Char} (double : isDoubleOp first second = true) :
      Written (.op (String.ofList [first, second])) [first, second]
  | singleOp {c : Char} (single : isSingleOp c = true) : Written (.op (String.ofList [c])) [c]
  | punctuation {c : Char} {l : Lexeme} (found : punctuation? c = some l) : Written l [c]
  | comment {rest : List Char} (line : ∀ c ∈ rest, (c != '\n') = true) :
      Written (.comment (String.ofList ('#' :: rest))) ('#' :: rest)

/-! ## What starts a lexeme -/

theorem not_isDigit_of_isWordStart {c : Char} (word : isWordStart c = true) :
    c.isDigit = false := by
  refine Bool.eq_false_iff.mpr fun digit => ?_
  rw [isWordStart, isAlpha_of_isDigit digit, beq_false_of_class digit rfl] at word
  cases word

theorem not_isQuote_of_isWord {c : Char} (word : isWord c = true) : isQuote c = false := by
  rw [isQuote, beq_false_of_class word rfl, beq_false_of_class word rfl, Bool.or_self]

theorem quotedFrom_words {first : Char} {rest : List Char} (starts : isWordStart first = true)
    (words : ∀ c ∈ rest, isWord c = true) : quotedFrom first rest = none := by
  have unmarked := not_isQuote_of_isWord (isWord_of_isWordStart starts)
  cases rest with
  | nil => simp [quotedFrom, unmarked]
  | cons q rest =>
    simp [quotedFrom, unmarked, not_isQuote_of_isWord (words q List.mem_cons_self)]

theorem exists_quote_of_quotedFrom {first : Char} {cs : List Char} {found : Quoted}
    (starts : isWordStart first = true) (read : quotedFrom first cs = some found) :
    ∃ q tail, cs = q :: tail ∧ isQuote q = true ∧ found = (quoted q tail).after 1 := by
  have unmarked := not_isQuote_of_isWord (isWord_of_isWordStart starts)
  unfold quotedFrom at read
  rw [unmarked, if_neg Bool.false_ne_true] at read
  cases cs with
  | nil => cases read
  | cons q tail =>
    dsimp only at read
    split at read
    · rename_i letter
      cases read
      exact ⟨q, tail, rfl, (Bool.and_eq_true_iff.mp letter).2, rfl⟩
    · cases read

theorem start_name {first : Char} {cs : List Char} (starts : isWordStart first = true)
    (unquoted : quotedFrom first cs = none) :
    start first cs = .lexeme name (runLength isWord cs) := by
  simp [start, unquoted, not_isDigit_of_isWordStart starts, starts]

theorem start_doubleOp {first second : Char} (double : isDoubleOp first second = true)
    (cs : List Char) : start first (second :: cs) = .lexeme op 1 := by
  unfold isDoubleOp at double
  split at double
  case h_12 => cases double
  all_goals rfl

theorem start_singleOp {first : Char} (single : isSingleOp first = true) (cs : List Char) :
    ∃ more, start first cs = .lexeme op more := by
  have others : "-+*/%<>=!~&|^:".toList.all (fun c => !isQuote c && !c.isAlpha && !c.isDigit &&
      !isWordStart c && c != '#' && (punctuation? c).isNone) = true := rfl
  have other := List.all_eq_true.mp others first (List.contains_iff_mem.mp single)
  simp only [Bool.and_eq_true, Bool.not_eq_true', bne_iff_ne, ne_eq, Option.isNone_iff_eq_none]
    at other
  obtain ⟨⟨⟨⟨⟨noQuote, noLetter⟩, noDigit⟩, noWord⟩, noHash⟩, noPunctuation⟩ := other
  cases cs with
  | nil => exact ⟨0, by simp [start, quotedFrom, *]⟩
  | cons second cs =>
    by_cases double : isDoubleOp first second = true
    · exact ⟨1, start_doubleOp double cs⟩
    · exact ⟨0, by simp [start, quotedFrom, *]⟩

/-! ## What is written is read -/

theorem runLength_of_all {p : Char → Bool} {cs : List Char} (all : ∀ c ∈ cs, p c = true) :
    runLength p cs = cs.length := by
  have run : Consumes (runLength p) cs [] := consumes_run all rfl
  have whole := run.exact [] (headIn_nil [])
  rwa [List.append_nil] at whole

theorem le_runLength_of_prefix {p : Char → Bool} {front cs : List Char}
    (all : ∀ c ∈ front, p c = true) (starts : front <+: cs) : front.length ≤ runLength p cs := by
  have run : Consumes (runLength p) front [] := consumes_run all rfl
  obtain ⟨ext, rfl⟩ := starts
  exact run.least ext

namespace Written

variable {l m : Lexeme} {first : Char} {rest cs text : List Char}

theorem start_eq (h : Written l (first :: rest)) :
    ∃ make, start first rest = .lexeme make rest.length ∧
      make (String.ofList (first :: rest)) = l := by
  generalize whole : first :: rest = text at h
  cases h with
  | str s =>
    obtain ⟨first', rest', chars, -, closed⟩ := s.quotedFrom_chars
    cases whole.trans chars
    exact ⟨Lexeme.str, start_quotedFrom closed, rfl⟩
  | number n =>
    obtain ⟨first', rest', chars, digit, length⟩ := n.numberLength_chars
    cases whole.trans chars
    exact ⟨Lexeme.number, by rw [Numeral.start_digit digit, length], rfl⟩
  | name starts words =>
    cases whole
    have read := start_name starts (quotedFrom_words starts words)
    exact ⟨Lexeme.name, by rw [read, runLength_of_all words], rfl⟩
  | doubleOp double =>
    cases whole
    exact ⟨op, start_doubleOp double [], rfl⟩
  | singleOp single =>
    cases whole
    obtain ⟨more, read⟩ := start_singleOp single []
    have within := start_within first []
    rw [read] at within
    obtain rfl : more = 0 := Nat.le_zero.mp within
    exact ⟨op, read, rfl⟩
  | punctuation found =>
    cases whole
    exact ⟨fun _ => l, start_punctuation found [], rfl⟩
  | comment line =>
    cases whole
    exact ⟨Lexeme.comment, by rw [start_hash, runLength_of_all line], rfl⟩

theorem ne_nil (h : Written l text) : text ≠ [] := by
  cases h with
  | str s => simp [Quotation.chars]
  | number n =>
    obtain ⟨first, cs, chars, -⟩ := n.numberLength_chars
    simp [chars]
  | _ => exact List.cons_ne_nil _ _

theorem unique (h : Written l text) (h' : Written m text) : l = m := by
  obtain ⟨first, rest, rfl⟩ := List.exists_cons_of_ne_nil h.ne_nil
  obtain ⟨make, read, rfl⟩ := h.start_eq
  obtain ⟨make', read', rfl⟩ := h'.start_eq
  cases read.symm.trans read'
  rfl

/-- What follows can lengthen a lexeme but not cut it short, or it breaks off as a string that only
a letter is in front of. -/
theorem reach (h : Written l (first :: rest)) (front : rest <+: cs) :
    (∃ make more, start first cs = .lexeme make more ∧ rest.length ≤ more) ∨
      ∃ q tail n, rest = [] ∧ cs = q :: tail ∧ isQuote q = true ∧ quoted q tail = .broken n := by
  generalize whole : first :: rest = text at h
  cases h with
  | str s =>
    obtain ⟨first', rest', chars, -, closed⟩ := s.quotedFrom_chars
    cases whole.trans chars
    obtain ⟨ext, rfl⟩ := front
    have read := quotedFrom_cut closed (Nat.le_refl _) ext
    rw [List.take_length] at read
    exact .inl ⟨_, _, start_quotedFrom read, Nat.le_refl _⟩
  | number n =>
    obtain ⟨first', rest', chars, digit, consumes⟩ := n.consumes_number
    cases whole.trans chars
    obtain ⟨ext, rfl⟩ := front
    exact .inl ⟨_, _, Numeral.start_digit digit _, consumes.least ext⟩
  | name starts words =>
    cases whole
    cases read : quotedFrom first cs with
    | none => exact .inl ⟨_, _, start_name starts read, le_runLength_of_prefix words front⟩
    | some found =>
      obtain ⟨q, tail, rfl, marks, same⟩ := exists_quote_of_quotedFrom starts read
      -- The name ends in front of the quote, so it is the letter alone.
      obtain rfl : rest = [] := by
        cases rest with
        | nil => rfl
        | cons c rest =>
          obtain ⟨rfl, -⟩ := List.cons_prefix_cons.mp front
          rw [not_isQuote_of_isWord (words c List.mem_cons_self)] at marks
          cases marks
      cases inner : quoted q tail with
      | closed n =>
        rw [same, inner] at read
        exact .inl ⟨_, _, start_quotedFrom read, Nat.zero_le _⟩
      | broken n => exact .inr ⟨q, tail, n, rfl, rfl, marks, inner⟩
  | doubleOp double =>
    cases whole
    obtain ⟨ext, rfl⟩ := front
    exact .inl ⟨_, _, start_doubleOp double ext, Nat.le_refl 1⟩
  | singleOp single =>
    cases whole
    obtain ⟨more, read⟩ := start_singleOp single cs
    exact .inl ⟨_, _, read, Nat.zero_le _⟩
  | punctuation found =>
    cases whole
    exact .inl ⟨_, _, start_punctuation found cs, Nat.le_refl 0⟩
  | comment line =>
    cases whole
    exact .inl ⟨_, _, start_hash cs, le_runLength_of_prefix line front⟩

theorem quoted_closed {q : Char} (h : Written l (q :: rest)) (marks : isQuote q = true)
    (front : rest <+: cs) : ∃ n, quoted q cs = .closed n := by
  obtain ⟨make, read, -⟩ := h.start_eq
  cases inner : quoted q rest with
  | closed n =>
    have within : n ≤ rest.length := by
      have bound := quoted_within q rest
      rwa [inner] at bound
    obtain ⟨ext, rfl⟩ := front
    have whole := quoted_cut inner within ext
    rw [List.take_length] at whole
    exact ⟨n, whole⟩
  | broken n => simp [start, quotedFrom, marks, inner] at read

end Written

theorem written_of_start {first : Char} {cs : List Char} {make : String → Lexeme} {more : Nat}
    (starts : start first cs = .lexeme make more) :
    Written (make (String.ofList (first :: cs.take more))) (first :: cs.take more) := by
  cases starts_of_start starts with
  | str closed =>
    have cut := quotedFrom_cut closed (Nat.le_refl more) []
    have within : (cs.take more).length = more :=
      List.length_take_of_le (quotedFrom_within closed)
    rw [List.append_nil] at cut
    obtain ⟨s, chars⟩ := Quotation.exists_quotation (by rwa [within])
    rw [← chars]
    exact .str s
  | number digit =>
    obtain ⟨n, chars⟩ := Numeral.exists_numeral digit cs
    rw [← chars]
    exact .number n
  | name word =>
    rw [take_runLength]
    exact .name word (List.all_eq_true.mp List.all_takeWhile)
  | comment hash =>
    subst hash
    rw [take_runLength]
    exact .comment (List.all_eq_true.mp List.all_takeWhile)
  | punctuation found => exact .punctuation found
  | doubleOp follows double =>
    obtain ⟨tail, rfl⟩ := List.head?_eq_some_iff.mp follows
    exact .doubleOp double
  | singleOp single => exact .singleOp single

/-! ## Scanning -/

/-- A lexeme is written here, and none is written in more characters. -/
structure Longest (cs : List Char) (l : Lexeme) (text : List Char) : Prop where
  written : Written l text
  starts : text <+: cs
  longest : ∀ m other, Written m other → other <+: cs → other.length ≤ text.length

theorem longest_of_start {first : Char} {cs : List Char} {make : String → Lexeme} {more : Nat}
    (starts : start first cs = .lexeme make more) :
    Longest (first :: cs) (make (String.ofList (first :: cs.take more)))
      (first :: cs.take more) where
  written := written_of_start starts
  starts := List.cons_prefix_cons.mpr ⟨rfl, List.take_prefix more cs⟩
  longest m other written front := by
    obtain ⟨c, rest, rfl⟩ := List.exists_cons_of_ne_nil written.ne_nil
    obtain ⟨rfl, behind⟩ := List.cons_prefix_cons.mp front
    have within := start_within c cs
    rw [starts] at within
    have size : (cs.take more).length = more := List.length_take_of_le within
    rw [List.length_cons, List.length_cons, size]
    rcases written.reach behind with ⟨make', more', read, least⟩ | ⟨q, tail, n, rfl, -⟩
    · cases starts.symm.trans read
      exact Nat.succ_le_succ least
    · exact Nat.succ_le_succ (Nat.zero_le more)

theorem Longest.unique {cs text text' : List Char} {l m : Lexeme} (h : Longest cs l text)
    (h' : Longest cs m text') : l = m ∧ text = text' := by
  have size := Nat.le_antisymm (h'.longest l text h.written h.starts)
    (h.longest m text' h'.written h'.starts)
  have same : text = text' :=
    (List.prefix_of_prefix_length_le h.starts h'.starts (Nat.le_of_eq size)).eq_of_length size
  subst same
  exact ⟨h.written.unique h'.written, rfl⟩

/-- From a byte offset on, blanks are skipped and the longest lexeme is taken at each position. -/
inductive Greedy : Nat → List Char → List (Spanned Lexeme) → Prop
  | done (offset : Nat) : Greedy offset [] []
  | blank {offset : Nat} {first : Char} {cs : List Char} {ls : List (Spanned Lexeme)}
      (skipped : isBlank first = true) (below : Greedy (offset + first.utf8Size) cs ls) :
      Greedy offset (first :: cs) ls
  | lexeme {offset : Nat} {text rest : List Char} {l : Lexeme} {ls : List (Spanned Lexeme)}
      (longest : Longest (text ++ rest) l text)
      (below : Greedy (offset + byteLength text) rest ls) :
      Greedy offset (text ++ rest) (⟨l, ⟨offset, offset + byteLength text⟩⟩ :: ls)

theorem Scanned.greedy {offset : Nat} {cs : List Char} {ls : List (Spanned Lexeme)}
    (scanned : Scanned offset cs ls) : Greedy offset cs ls := by
  induction scanned with
  | done offset => exact .done offset
  | blank skipped below ih => exact .blank skipped ih
  | @lexeme offset first cs ls make more kept starts below ih =>
    have longest := longest_of_start starts
    have parts : first :: cs = (first :: cs.take more) ++ cs.drop more := by simp
    rw [parts] at longest ⊢
    exact .lexeme longest ih

theorem start_blank {c : Char} (blank : isBlank c = true) (cs : List Char) :
    start c cs = .fault 0 := by
  simp only [isBlank, Bool.or_eq_true, beq_iff_eq, or_assoc] at blank
  rcases blank with rfl | rfl | rfl | rfl <;> cases cs <;> rfl

theorem Greedy.quoted_closed {offset : Nat} {q : Char} {tail : List Char}
    {ls : List (Spanned Lexeme)} (h : Greedy offset (q :: tail) ls) (marks : isQuote q = true) :
    ∃ n, quoted q tail = .closed n := by
  generalize whole : q :: tail = cs at h
  cases h with
  | done offset => cases whole
  | blank skipped below =>
    cases whole
    rw [isBlank, beq_false_of_class marks rfl, beq_false_of_class marks rfl,
      beq_false_of_class marks rfl, beq_false_of_class marks rfl] at skipped
    cases skipped
  | lexeme longest below =>
    have front := longest.starts
    obtain ⟨c, rest, rfl⟩ := List.exists_cons_of_ne_nil longest.written.ne_nil
    rw [← whole] at front
    obtain ⟨rfl, behind⟩ := List.cons_prefix_cons.mp front
    exact longest.written.quoted_closed marks behind

theorem Greedy.scanned {offset : Nat} {cs : List Char} {ls : List (Spanned Lexeme)}
    (greedy : Greedy offset cs ls) : Scanned offset cs ls := by
  induction greedy with
  | done offset => exact .done offset
  | blank skipped below ih => exact .blank skipped ih
  | @lexeme offset text rest l ls longest below ih =>
    obtain ⟨first, behind, rfl⟩ := List.exists_cons_of_ne_nil longest.written.ne_nil
    rcases longest.written.reach (List.prefix_append behind rest) with
      ⟨make, more, starts, -⟩ | ⟨q, tail, n, rfl, rfl, marks, broken⟩
    · have here : Longest (first :: (behind ++ rest)) l (first :: behind) := longest
      obtain ⟨made, text⟩ := here.unique (longest_of_start starts)
      have kept : isBlank first = false := by
        refine Bool.eq_false_iff.mpr fun blank => ?_
        rw [start_blank blank] at starts
        cases starts
      have taken : (behind ++ rest).take more = behind := (List.cons.inj text).2.symm
      have dropped : (behind ++ rest).drop more = rest := by
        have parts := List.take_append_drop more (behind ++ rest)
        rw [taken] at parts
        exact List.append_cancel_left parts
      have scanned := Scanned.lexeme kept starts (by rwa [taken, dropped])
      rw [taken] at scanned made
      rw [made]
      exact scanned
    · -- Behind the letter alone, nothing could be read.
      obtain ⟨m, closed⟩ := below.quoted_closed marks
      rw [broken] at closed
      cases closed

/-- Scanning is reading the longest lexeme at each position, and it fails where that fails. -/
theorem scan_eq_ok_iff_greedy {source : String} {ls : List (Spanned Lexeme)} :
    scan source = .ok ls ↔ Greedy 0 source.toList ls :=
  scanFrom_eq_ok_iff.trans ⟨Scanned.greedy, Greedy.scanned⟩

end ExprCheck.Lexeme
