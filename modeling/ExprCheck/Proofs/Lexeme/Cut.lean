import ExprCheck.Lexeme.Scan
/-! Lexemes that are cut out of their text. How much a recogniser takes is decided by what it takes,
as long as nothing follows that could go on with it. Main statement: a lexeme that is no comment is
read again from its own characters, at the end of a text or in front of a blank, a line feed, a
comma or a closing bracket. -/
namespace ExprCheck.Lexeme

/-! ## Characters -/

/-- The characters that no lexeme goes on with but a string or a comment. -/
def stops : List Char :=
  [' ', '\t', '\r', '\x0c', '\n', ',', ')', ']', '}']

theorem not_of_stop {p : Char → Bool} (refused : stops.any p = false) {c : Char}
    (stop : c ∈ stops) : p c = false := by
  simpa using List.any_eq_false.mp refused c stop

theorem beq_false_of_class {p : Char → Bool} {c d : Char} (inside : p d = true)
    (outside : p c = false) : (d == c) = false := by
  apply Bool.eq_false_iff.mpr
  intro same
  rw [eq_of_beq same, outside] at inside
  cases inside

/-- The text ends here or goes on with such a character. -/
def AtStop (ext : List Char) : Prop :=
  ∀ c ∈ ext.head?, c ∈ stops

theorem atStop_nil : AtStop [] :=
  nofun

theorem atStop_cons {c : Char} (stop : c ∈ stops) (rest : List Char) : AtStop (c :: rest) := by
  intro d head
  cases head
  exact stop

/-! ## Recognisers -/

/-- The recogniser takes some of the text, and as much if the text is cut behind that and stops. -/
structure Settled (r : List Char → Nat) : Prop where
  cut : ∀ (cs : List Char) (m : Nat) (ext : List Char), r cs ≤ m → AtStop ext →
    r (cs.take m ++ ext) = r cs
  within : ∀ cs : List Char, r cs ≤ cs.length

theorem settled_of_cons {r : List Char → Nat} (nothing : ∀ ext, AtStop ext → r ext = 0)
    (cut : ∀ c cs m ext, r (c :: cs) ≤ m + 1 → AtStop ext →
      r (c :: (cs.take m ++ ext)) = r (c :: cs))
    (within : ∀ cs : List Char, r cs ≤ cs.length) : Settled r where
  cut cs m ext short stop := by
    match cs, m with
    | [], m => rw [List.take_nil, List.nil_append, nothing ext stop, nothing [] atStop_nil]
    | c :: cs, 0 => rw [List.take_zero, List.nil_append, nothing ext stop, Nat.le_zero.mp short]
    | c :: cs, m + 1 => exact cut c cs m ext short stop
  within := within

theorem Settled.atStop {r : List Char → Nat} (h : Settled r) {ext : List Char}
    (stop : AtStop ext) : r ext = 0 := by
  have same := h.cut [] 0 ext (h.within []) stop
  exact same.trans (Nat.le_zero.mp (h.within []))

theorem runLength_eq_zero {p : Char → Bool} {cs : List Char}
    (refused : ∀ c ∈ cs.head?, p c = false) : runLength p cs = 0 := by
  cases cs with
  | nil => rfl
  | cons c rest => simp [runLength, refused c rfl]

theorem runLength_settled {p : Char → Bool} (refused : stops.any p = false) :
    Settled (runLength p) where
  cut cs m ext short stop := by
    have nothing : runLength p ext = 0 :=
      runLength_eq_zero fun c head => not_of_stop refused (stop c head)
    induction cs generalizing m with
    | nil => rwa [List.take_nil, List.nil_append]
    | cons c tail ih =>
      cases m with
      | zero => rw [List.take_zero, List.nil_append, nothing, Nat.le_zero.mp short]
      | succ m =>
        by_cases taken : p c = true
        · simp only [runLength, List.takeWhile_cons, taken, if_true, List.length_cons] at short
          have below := ih m (Nat.le_of_succ_le_succ short)
          simp only [runLength] at below
          simp [runLength, taken, below]
        · simp [runLength, taken]
  within cs := (List.takeWhile_sublist p).length_le

theorem Settled.andThen {r s : List Char → Nat} (hr : Settled r) (hs : Settled s) :
    Settled fun cs => r cs + s (cs.drop (r cs)) where
  cut cs m ext short stop := by
    have first := hr.cut cs m ext (by omega) stop
    have within := hr.within cs
    have behind : (cs.take m ++ ext).drop (r cs) = (cs.drop (r cs)).take (m - r cs) ++ ext := by
      rw [List.drop_append_of_le_length (by rw [List.length_take]; omega), List.drop_take]
    have second := hs.cut (cs.drop (r cs)) (m - r cs) ext (by omega) stop
    simp only [first, behind, second]
  within cs := by
    have here := hr.within cs
    have after := hs.within (cs.drop (r cs))
    simp only [List.length_drop] at after
    omega

theorem digitParts_settled : Settled (runLength isDigitPart) :=
  runLength_settled rfl

theorem hexParts_settled : Settled (runLength isHexPart) :=
  runLength_settled rfl

theorem words_settled : Settled (runLength isWord) :=
  runLength_settled rfl

theorem fractionLength_eq_zero {point : Char} {ext : List Char} (stop : AtStop ext) :
    fractionLength (point :: ext) = 0 := by
  have notDigit : stops.any Char.isDigit = false := rfl
  cases ext with
  | nil => by_cases dot : point = '.' <;> simp [fractionLength, dot]
  | cons d rest =>
    have other := not_of_stop notDigit (stop d rfl)
    by_cases dot : point = '.' <;> simp [fractionLength, dot, other]

theorem fractionLength_settled : Settled fractionLength := by
  apply settled_of_cons
  · intro ext stop
    cases ext with
    | nil => rfl
    | cons c rest =>
      have noDot : c ≠ '.' := by
        rintro rfl
        exact absurd (stop '.' rfl) (by decide)
      cases rest <;> simp [fractionLength, noDot]
  · intro point cs m ext short stop
    match cs, m with
    | [], m => simp [fractionLength_eq_zero stop, fractionLength_eq_zero atStop_nil]
    | d :: tail, 0 =>
      have none : fractionLength (point :: d :: tail) = 0 := by
        by_cases dot : point = '.'
        · subst dot
          simp only [fractionLength] at short ⊢
          split at short
          · omega
          · simp_all
        · simp [fractionLength, dot]
      rw [List.take_zero, List.nil_append, none, fractionLength_eq_zero stop]
    | d :: tail, m + 1 =>
      by_cases dot : point = '.'
      · subst dot
        simp only [List.take_succ_cons, List.cons_append, fractionLength] at short ⊢
        split
        · rename_i digit
          rw [if_pos digit] at short
          rw [digitParts_settled.cut tail m ext (by omega) stop]
        · rfl
      · simp [fractionLength, dot]
  · intro cs
    unfold fractionLength
    split
    · split
      · exact Nat.add_le_add_right (digitParts_settled.within _) 2
      · exact Nat.zero_le _
    · exact Nat.zero_le _

theorem signLength_le_one (cs : List Char) : signLength cs ≤ 1 := by
  unfold signLength
  split
  · split <;> omega
  · omega

theorem signLength_settled : Settled signLength := by
  have noSign : stops.any (fun c => c == '+' || c == '-') = false := rfl
  apply settled_of_cons
  · intro ext stop
    cases ext with
    | nil => rfl
    | cons c rest =>
      have other := not_of_stop noSign (stop c rfl)
      simp only [signLength, other, Bool.false_eq_true, if_false]
  · intro c cs m ext short stop
    rfl
  · intro cs
    unfold signLength
    split
    · split <;> simp
    · simp

theorem digits_settled : Settled (runLength Char.isDigit) :=
  runLength_settled rfl

theorem signedDigits_settled :
    Settled fun cs => signLength cs + runLength Char.isDigit (cs.drop (signLength cs)) :=
  signLength_settled.andThen digits_settled

theorem exponentLength_settled : Settled exponentLength := by
  have noMark : stops.any (fun c => c == 'e' || c == 'E') = false := rfl
  apply settled_of_cons
  · intro ext stop
    cases ext with
    | nil => rfl
    | cons c rest =>
      have other := not_of_stop noMark (stop c rfl)
      simp only [exponentLength, other, Bool.false_eq_true, if_false]
  · intro e cs m ext short stop
    have sign := signLength_settled.cut cs m ext
    have both := signedDigits_settled.cut cs m ext
    by_cases marked : (e == 'e' || e == 'E') = true
    · simp only [exponentLength, marked, if_true] at short ⊢
      by_cases fits : signLength cs + runLength Char.isDigit (cs.drop (signLength cs)) ≤ m
      · have same := sign (by omega) stop
        have signed := both fits stop
        simp only [same, Nat.add_left_cancel_iff] at signed
        rw [same, signed]
      · -- Only a sign without digits can be cut off.
        have signOnly := signLength_le_one cs
        have noDigits : runLength Char.isDigit (cs.drop (signLength cs)) = 0 := by
          split at short <;> omega
        obtain rfl : m = 0 := by omega
        rw [List.take_zero, List.nil_append, signLength_settled.atStop stop, List.drop_zero,
          digits_settled.atStop stop, noDigits]
        rfl
    · simp [exponentLength, marked]
  · intro cs
    unfold exponentLength
    split
    · rename_i e rest
      have signed := signedDigits_settled.within rest
      simp only [List.length_cons]
      split
      · split
        · exact Nat.zero_le _
        · omega
      · exact Nat.zero_le _
    · exact Nat.zero_le _

def suffixes : List (List Char) :=
  ["i8", "u8", "i16", "i32", "i64", "u16", "u32", "u64", "f32", "f64"].map String.toList

theorem suffixLength_of_starts {s cs : List Char} (mem : s ∈ suffixes) (starts : s <+: cs) :
    suffixLength cs = s.length := by
  obtain ⟨rest, rfl⟩ := starts
  simp only [suffixes, List.map_cons, List.map_nil, List.mem_cons, List.not_mem_nil, or_false]
    at mem
  rcases mem with rfl | rfl | rfl | rfl | rfl | rfl | rfl | rfl | rfl | rfl <;> rfl

theorem suffixLength_eq_zero_or (cs : List Char) :
    suffixLength cs = 0 ∨ cs.take (suffixLength cs) ∈ suffixes := by
  unfold suffixLength
  split <;> simp [suffixes]

theorem unstopped_of_suffix {s : List Char} (mem : s ∈ suffixes) : ∀ c ∈ s, c ∉ stops := by
  have none : suffixes.all (fun s => s.all fun c => !stops.contains c) = true := rfl
  intro c among
  simpa using List.all_eq_true.mp (List.all_eq_true.mp none s mem) c among

theorem prefix_of_atStop {s front ext : List Char} (unstopped : ∀ c ∈ s, c ∉ stops)
    (stop : AtStop ext) (starts : s <+: front ++ ext) : s <+: front := by
  by_cases short : s.length ≤ front.length
  · exact List.prefix_of_prefix_length_le starts (List.prefix_append front ext) short
  · obtain ⟨more, rfl⟩ :=
      List.prefix_of_prefix_length_le (List.prefix_append front ext) starts (by omega)
    have behind := (List.prefix_append_right_inj front).mp starts
    cases more with
    | nil => simp at short
    | cons c more =>
      obtain ⟨rest, rfl⟩ := behind
      exact absurd (stop c rfl) (unstopped c (by simp))

theorem suffixLength_settled : Settled suffixLength where
  cut cs m ext short stop := by
    rcases suffixLength_eq_zero_or cs with none | found
    · rcases suffixLength_eq_zero_or (cs.take m ++ ext) with none' | found
      · rw [none, none']
      · have before := prefix_of_atStop (unstopped_of_suffix found) stop (List.take_prefix _ _)
        have there := suffixLength_of_starts found (List.take_prefix _ _)
        have here := suffixLength_of_starts found (before.trans (List.take_prefix m cs))
        rw [there, here]
    · have kept : cs.take (suffixLength cs) <+: cs.take m ++ ext :=
        (List.take_prefix_take_left short).trans (List.prefix_append _ ext)
      rw [suffixLength_of_starts found kept, ← suffixLength_of_starts found (List.take_prefix _ cs)]
  within cs := by
    rcases suffixLength_eq_zero_or cs with none | found
    · omega
    · rw [suffixLength_of_starts found (List.take_prefix _ cs)]
      exact (List.take_prefix _ cs).length_le

theorem decimalLength_settled : Settled decimalLength :=
  ((digitParts_settled.andThen fractionLength_settled).andThen exponentLength_settled).andThen
    suffixLength_settled

theorem numberLength_cons_cons (first x d : Char) (rest : List Char) :
    numberLength first (x :: d :: rest) =
      if first == '0' && (x == 'x' || x == 'X') && isHexDigit d then runLength isHexPart rest + 2
      else decimalLength (x :: d :: rest) :=
  rfl

theorem numberLength_eq_decimalLength {first x : Char} {ext : List Char} (stop : AtStop ext) :
    numberLength first (x :: ext) = decimalLength (x :: ext) := by
  have notHex : stops.any isHexDigit = false := rfl
  cases ext with
  | nil => rfl
  | cons d rest => simp [numberLength_cons_cons, not_of_stop notHex (stop d rfl)]

theorem numberLength_settled (first : Char) : Settled (numberLength first) := by
  apply settled_of_cons
  · have noMark : stops.any (fun c => c == 'x' || c == 'X') = false := rfl
    intro ext stop
    have decimal := decimalLength_settled.atStop stop
    match ext with
    | [] | [c] => exact decimal
    | c :: d :: rest =>
      simpa [numberLength_cons_cons, not_of_stop noMark (stop c rfl)] using decimal
  · intro x cs m ext short stop
    match cs, m with
    | [], m =>
      -- Behind the mark alone there is no digit that would make the number hexadecimal.
      have decimal := decimalLength_settled.cut [x] (m + 1) ext short stop
      rw [List.take_succ_cons, List.take_nil] at decimal
      rw [List.take_nil, List.nil_append, numberLength_eq_decimalLength stop]
      exact decimal
    | d :: tail, 0 =>
      have decimal := decimalLength_settled.cut (x :: d :: tail) 1 ext
      rw [List.take_zero, List.nil_append, numberLength_eq_decimalLength stop]
      rw [numberLength_cons_cons] at short ⊢
      split at short
      · omega
      · rename_i notHex
        rw [if_neg notHex]
        exact decimal short stop
    | d :: tail, m + 1 =>
      have decimal := decimalLength_settled.cut (x :: d :: tail) (m + 2) ext
      have digits := hexParts_settled.cut tail m ext
      rw [List.take_succ_cons, List.cons_append, numberLength_cons_cons]
      rw [numberLength_cons_cons] at short ⊢
      split at short
      · rename_i hex
        rw [if_pos hex, if_pos hex, digits (by omega) stop]
      · rename_i notHex
        rw [if_neg notHex, if_neg notHex]
        exact decimal short stop
  · intro cs
    unfold numberLength
    split
    · split
      · exact Nat.add_le_add_right (hexParts_settled.within _) 2
      · exact decimalLength_settled.within _
    · exact decimalLength_settled.within _

/-! ## Strings -/

def Quoted.length : Quoted → Nat
  | closed length | broken length => length

@[simp] theorem Quoted.length_after (n : Nat) (q : Quoted) :
    (q.after n).length = q.length + n := by
  cases q <;> rfl

theorem Quoted.of_after_eq_closed {q : Quoted} {k n : Nat} (same : q.after k = .closed n) :
    ∃ j, q = .closed j ∧ n = j + k := by
  cases q with
  | closed j =>
    cases same
    exact ⟨j, rfl, rfl⟩
  | broken j => cases same

theorem quoted_cons {quote c : Char} (plain : c ≠ '\\') (cs : List Char) :
    quoted quote (c :: cs) =
      if c = quote then .closed 1
      else if c = '\n' then .broken 0
      else (quoted quote cs).after 1 := by
  cases cs <;> simp [quoted, plain]

theorem ne_backslash {c : Char} {tail : List Char}
    (escapes : ∀ d rest, c = '\\' → tail = d :: rest → False)
    (ends : c = '\\' → tail = [] → False) : c ≠ '\\' := by
  rintro rfl
  cases tail with
  | nil => exact ends rfl rfl
  | cons d rest => exact escapes d rest rfl rfl

theorem quoted_cut {quote : Char} {cs : List Char} {n m : Nat}
    (closed : quoted quote cs = .closed n) (short : n ≤ m) (ext : List Char) :
    quoted quote (cs.take m ++ ext) = .closed n := by
  fun_induction quoted quote cs generalizing n m with
  | case1 => cases closed
  | case2 => cases closed
  | case3 c tail notFeed ih =>
    obtain ⟨j, below, rfl⟩ := Quoted.of_after_eq_closed closed
    obtain ⟨m, rfl⟩ : ∃ k, m = k + 2 := ⟨m - 2, by omega⟩
    simp [quoted, notFeed, ih below (by omega : j ≤ m), Quoted.after]
  | case4 => cases closed
  | case5 tail escapes ends =>
    cases closed
    obtain ⟨m, rfl⟩ : ∃ k, m = k + 1 := ⟨m - 1, by omega⟩
    simp [quoted_cons (ne_backslash escapes ends)]
  | case6 => cases closed
  | case7 c tail escapes ends notQuote notFeed ih =>
    obtain ⟨j, below, rfl⟩ := Quoted.of_after_eq_closed closed
    obtain ⟨m, rfl⟩ : ∃ k, m = k + 1 := ⟨m - 1, by omega⟩
    simp [quoted_cons (ne_backslash escapes ends), notQuote, notFeed,
      ih below (by omega : j ≤ m), Quoted.after]

theorem quotedFrom_cut {first : Char} {cs : List Char} {n m : Nat}
    (closed : quotedFrom first cs = some (.closed n)) (short : n ≤ m) (ext : List Char) :
    quotedFrom first (cs.take m ++ ext) = some (.closed n) := by
  unfold quotedFrom at closed ⊢
  split at closed
  · rename_i marks
    rw [if_pos marks, quoted_cut (Option.some.inj closed) short]
  · rename_i unmarked
    split at closed
    · rename_i q tail
      split at closed
      · rename_i marks
        obtain ⟨j, below, rfl⟩ := Quoted.of_after_eq_closed (Option.some.inj closed)
        obtain ⟨m, rfl⟩ : ∃ k, m = k + 1 := ⟨m - 1, by omega⟩
        have inner := quoted_cut below (by omega : j ≤ m) ext
        simp only [List.take_succ_cons, List.cons_append, if_neg unmarked, if_pos marks, inner]
        rfl
      · cases closed
    · cases closed

theorem quotedFrom_eq_none_cut {first : Char} {cs : List Char}
    (unquoted : quotedFrom first cs = none) (m : Nat) {ext : List Char} (stop : AtStop ext) :
    quotedFrom first (cs.take m ++ ext) = none := by
  have unquoting : stops.any isQuote = false := rfl
  by_cases marks : isQuote first = true
  · simp [quotedFrom, marks] at unquoted
  · have alone : quotedFrom first ext = none := by
      cases ext with
      | nil => simp [quotedFrom, marks]
      | cons c rest => simp [quotedFrom, marks, not_of_stop unquoting (stop c rfl)]
    match cs, m with
    | [], m => rwa [List.take_nil, List.nil_append]
    | q :: tail, 0 => rwa [List.take_zero, List.nil_append]
    | q :: tail, m + 1 =>
      simp only [quotedFrom, marks, List.take_succ_cons, List.cons_append] at unquoted ⊢
      simpa using unquoted

theorem isDoubleOp_stop (first : Char) {c : Char} (stop : c ∈ stops) :
    isDoubleOp first c = false := by
  unfold isDoubleOp
  split
  case h_12 => rfl
  all_goals exact absurd stop (by decide)

/-- A lexeme that is no comment is read from its own characters, if nothing or a stop follows. -/
theorem start_cut {first : Char} {cs : List Char} {make : String → Lexeme} {more m : Nat}
    (starts : start first cs = .lexeme make more) (noComment : first ≠ '#') (short : more ≤ m)
    {ext : List Char} (stop : AtStop ext) :
    start first (cs.take m ++ ext) = .lexeme make more := by
  unfold start at starts ⊢
  split at starts
  · rename_i closed
    cases starts
    rw [quotedFrom_cut closed short]
  · cases starts
  rename_i unquoted
  rw [quotedFrom_eq_none_cut unquoted m stop]
  dsimp only
  split at starts
  · rename_i digit
    cases starts
    rw [if_pos digit, (numberLength_settled first).cut cs m ext short stop]
  rename_i noDigit
  rw [if_neg noDigit]
  split at starts
  · rename_i word
    cases starts
    rw [if_pos word, words_settled.cut cs m ext short stop]
  rename_i noWord
  rw [if_neg noWord, if_neg noComment]
  split at starts
  · exact starts
  cases taken : cs.take m with
  | nil =>
    -- What follows the operator is cut off, so the operator has one character.
    have single : isSingleOp first = true ∧ Start.lexeme op 0 = .lexeme make more := by
      cases cs with
      | nil =>
        dsimp only [List.head?_nil] at starts
        split at starts
        · rename_i alone
          exact ⟨alone, starts⟩
        · cases starts
      | cons second tail =>
        have nothing : m = 0 := by simpa using taken
        dsimp only [List.head?_cons] at starts
        split at starts
        · cases starts
          omega
        split at starts
        · rename_i alone
          exact ⟨alone, starts⟩
        · cases starts
    obtain ⟨alone, same⟩ := single
    rw [List.nil_append, ← same]
    cases ext with
    | nil => simp [alone]
    | cons c rest => simp [isDoubleOp_stop first (stop c rfl), alone]
  | cons second tail =>
    have head : cs.head? = some second := by
      cases cs with
      | nil => simp at taken
      | cons first' rest =>
        cases m with
        | zero => simp at taken
        | succ m =>
          rw [List.take_succ_cons] at taken
          cases taken
          rfl
    rw [head] at starts
    exact starts

end ExprCheck.Lexeme
