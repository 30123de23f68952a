import ExprCheck.Proofs.Dotted
import ExprCheck.Proofs.Lexeme.Alone
import ExprCheck.Ty
/-! Numbers as they are written. A numeral says what a number is made of: hexadecimal digits behind
their mark, or a whole part and behind it, if they are there, a fraction, an exponent and the name
of a type. Main statement: the numbers that are read in sources are the numerals. -/
namespace ExprCheck

open Lexeme

/-! ## Numerals -/

inductive NumberType where
  | int (ty : IntType)
  | float (ty : FloatType)
deriving DecidableEq, Repr

namespace NumberType

def ty : NumberType → Ty
  | int ty => .int ty
  | float ty => .float ty

def chars (t : NumberType) : List Char :=
  t.ty.display.toList

end NumberType

/-- A digit, and behind it digits and underscores. -/
structure Digits (digit : Char → Bool) where
  first : Char
  rest : List Char
  isDigit : digit first = true
  isPart : ∀ c ∈ rest, (digit c || c == '_') = true

def Digits.chars {digit : Char → Bool} (d : Digits digit) : List Char :=
  d.first :: d.rest

theorem Digits.chars_isPart {digit : Char → Bool} (d : Digits digit) :
    ∀ c ∈ d.chars, (digit c || c == '_') = true :=
  List.forall_mem_cons.mpr ⟨by simp [d.isDigit], d.isPart⟩

/-- No underscore stands between the digits of an exponent. -/
structure Exponent where
  mark : Char
  sign : List Char
  digits : List Char
  isMark : mark ∈ ['e', 'E']
  isSign : sign ∈ [[], ['+'], ['-']]
  isDigit : ∀ c ∈ digits, c.isDigit = true
  notEmpty : digits ≠ []

theorem Exponent.sign_cases (e : Exponent) : e.sign = [] ∨ e.sign = ['+'] ∨ e.sign = ['-'] := by
  simpa using e.isSign

inductive Numeral where
  | hex (mark : Char) (isMark : mark ∈ ['x', 'X']) (digits : Digits isHexDigit)
  | decimal (whole : Digits Char.isDigit) (fraction? : Option (Digits Char.isDigit))
      (exponent? : Option Exponent) (suffix? : Option NumberType)

namespace Numeral

def fractionChars : Option (Digits Char.isDigit) → List Char
  | none => []
  | some digits => '.' :: digits.chars

def exponentChars : Option Exponent → List Char
  | none => []
  | some e => e.mark :: (e.sign ++ e.digits)

def suffixChars : Option NumberType → List Char
  | none => []
  | some t => t.chars

def chars : Numeral → List Char
  | hex mark _ digits => '0' :: mark :: digits.chars
  | decimal whole fraction? exponent? suffix? =>
      whole.chars ++
        (fractionChars fraction? ++ (exponentChars exponent? ++ suffixChars suffix?))

def text (n : Numeral) : String :=
  String.ofList n.chars

end Numeral

/-! ## Characters -/

theorem not_le_val_of_isDigit {d : Char} (digit : d.isDigit = true) {code : UInt32}
    (behind : 57 < code) : ¬code ≤ d.val := by
  have last : d.val ≤ 57 := by
    simp only [Char.isDigit, Bool.and_eq_true, decide_eq_true_eq] at digit
    exact digit.2
  exact UInt32.not_le.mpr (UInt32.lt_of_le_of_lt last behind)

theorem isAlpha_of_isDigit {d : Char} (digit : d.isDigit = true) : d.isAlpha = false := by
  have upper : d.isUpper = false :=
    decide_eq_false fun letter => not_le_val_of_isDigit digit (by decide) letter.1
  have below : ¬97 ≤ d.val := not_le_val_of_isDigit digit (by decide)
  have lower : d.isLower = false := Bool.and_eq_false_iff.mpr (.inl (decide_eq_false below))
  exact Bool.or_eq_false_iff.mpr ⟨upper, lower⟩

theorem toLower_of_isDigit {d : Char} (digit : d.isDigit = true) : d.toLower = d :=
  dif_neg fun upper => not_le_val_of_isDigit digit (by decide) upper.1

/-! ## What a numeral is read as -/

/-- Nothing follows, or one of these characters. -/
def HeadIn (marks cs : List Char) : Prop :=
  ∀ c ∈ cs.head?, c ∈ marks

theorem headIn_nil (marks : List Char) : HeadIn marks [] :=
  nofun

theorem HeadIn.eq_nil {cs : List Char} (h : HeadIn [] cs) : cs = [] := by
  cases cs with
  | nil => rfl
  | cons c cs => cases h c rfl

theorem HeadIn.append {marks marks' cs ds : List Char} (h : HeadIn marks cs)
    (h' : HeadIn marks' ds) : HeadIn (marks ++ marks') (cs ++ ds) := by
  intro c head
  cases cs with
  | nil => exact List.mem_append_right marks (h' c head)
  | cons d cs => exact List.mem_append_left marks' (h c head)

theorem HeadIn.refused {marks cs : List Char} (h : HeadIn marks cs) {p : Char → Bool}
    (refused : marks.any p = false) : ∀ c ∈ cs.head?, p c = false := by
  intro c head
  simpa using List.any_eq_false.mp refused c (h c head)

/-- The recogniser takes all of the characters, whatever follows them, and no more if nothing or one
of the marks does. -/
structure Consumes (r : List Char → Nat) (cs marks : List Char) : Prop where
  least : ∀ ext, cs.length ≤ r (cs ++ ext)
  exact : ∀ ext, HeadIn marks ext → r (cs ++ ext) = cs.length

theorem consumes_nothing {r : List Char → Nat} {marks : List Char}
    (exact : ∀ ext, HeadIn marks ext → r ext = 0) : Consumes r [] marks where
  least _ := Nat.zero_le _
  exact := exact

theorem consumes_run {p : Char → Bool} {cs marks : List Char} (all : ∀ c ∈ cs, p c = true)
    (refused : marks.any p = false) : Consumes (runLength p) cs marks where
  least ext := by
    rw [runLength, List.takeWhile_append_of_pos all, List.length_append]
    exact Nat.le_add_right _ _
  exact ext head := by
    have nothing : runLength p ext = 0 := runLength_eq_zero (head.refused refused)
    rw [runLength, List.takeWhile_append_of_pos all, List.length_append]
    exact congrArg (cs.length + ·) nothing

theorem Consumes.andThen {r s : List Char → Nat} {cs ds marks marks' : List Char}
    (hr : Consumes r cs (marks ++ marks')) (hs : Consumes s ds marks') (head : HeadIn marks ds) :
    Consumes (fun cs => r cs + s (cs.drop (r cs))) (cs ++ ds) marks' where
  least ext := by
    rw [List.length_append, List.append_assoc]
    cases ds with
    | nil =>
      have first := hr.least ext
      simp only [List.nil_append, List.length_nil]
      omega
    | cons d ds =>
      -- The first recogniser stops where the second part starts.
      have mark : HeadIn (marks ++ marks') (d :: ds ++ ext) :=
        fun c same => List.mem_append_left marks' (head c same)
      have second := hs.least ext
      simp only [hr.exact _ mark, List.drop_left]
      omega
  exact ext behind := by
    simp only [List.append_assoc, hr.exact _ (head.append behind), List.drop_left,
      hs.exact ext behind, List.length_append]

theorem NumberType.chars_eq_cons (t : NumberType) :
    ∃ c ∈ ['i', 'u', 'f'], ∃ rest, t.chars = c :: rest := by
  rcases t with ty | ty <;> cases ty <;> exact ⟨_, by decide, _, rfl⟩

theorem NumberType.chars_mem_suffixes (t : NumberType) : t.chars ∈ suffixes := by
  rcases t with ty | ty <;> cases ty <;> decide

theorem NumberType.exists_of_mem_suffixes {s : List Char} (mem : s ∈ suffixes) :
    ∃ t : NumberType, t.chars = s := by
  simp only [suffixes, List.map_cons, List.map_nil, List.mem_cons, List.not_mem_nil, or_false]
    at mem
  rcases mem with rfl | rfl | rfl | rfl | rfl | rfl | rfl | rfl | rfl | rfl
  · exact ⟨.int .i8, rfl⟩
  · exact ⟨.int .u8, rfl⟩
  · exact ⟨.int .i16, rfl⟩
  · exact ⟨.int .i32, rfl⟩
  · exact ⟨.int .i64, rfl⟩
  · exact ⟨.int .u16, rfl⟩
  · exact ⟨.int .u32, rfl⟩
  · exact ⟨.int .u64, rfl⟩
  · exact ⟨.float .f32, rfl⟩
  · exact ⟨.float .f64, rfl⟩

namespace Numeral

theorem suffix_head (suffix? : Option NumberType) :
    HeadIn ['i', 'u', 'f'] (suffixChars suffix?) := by
  cases suffix? with
  | none => exact headIn_nil _
  | some t =>
    obtain ⟨letter, family, rest, chars⟩ := t.chars_eq_cons
    intro c head
    rw [suffixChars, chars] at head
    cases head
    exact family

theorem exponent_head (exponent? : Option Exponent) :
    HeadIn ['e', 'E'] (exponentChars exponent?) := by
  cases exponent? with
  | none => exact headIn_nil _
  | some e =>
    intro c head
    cases head
    exact e.isMark

theorem fraction_head (fraction? : Option (Digits Char.isDigit)) :
    HeadIn ['.'] (fractionChars fraction?) := by
  cases fraction? with
  | none => exact headIn_nil _
  | some digits =>
    intro c head
    cases head
    exact List.mem_singleton_self _

theorem consumes_suffix (suffix? : Option NumberType) :
    Consumes suffixLength (suffixChars suffix?) [] := by
  cases suffix? with
  | none =>
    refine consumes_nothing fun ext head => ?_
    rw [head.eq_nil]
    rfl
  | some t =>
    have taken (ext : List Char) : suffixLength (t.chars ++ ext) = t.chars.length :=
      suffixLength_of_starts t.chars_mem_suffixes (List.prefix_append _ ext)
    exact ⟨fun ext => Nat.le_of_eq (taken ext).symm, fun ext head => taken ext⟩

theorem signLength_sign (e : Exponent) (ds : List Char) :
    signLength (e.sign ++ (e.digits ++ ds)) = e.sign.length := by
  rcases e.sign_cases with unsigned | plus | minus
  · -- Without a sign, the first digit is looked at.
    obtain ⟨d, rest, parts⟩ := List.exists_cons_of_ne_nil e.notEmpty
    have digit : d.isDigit = true := e.isDigit d (by rw [parts]; exact List.mem_cons_self)
    have noSign : (d == '+' || d == '-') = false := by
      rw [beq_false_of_class digit rfl, beq_false_of_class digit rfl, Bool.or_self]
    rw [unsigned, parts, List.nil_append, List.cons_append, signLength, noSign]
    rfl
  · rw [plus]
    rfl
  · rw [minus]
    rfl

theorem exponentLength_append (e : Exponent) (ext : List Char) :
    exponentLength (exponentChars (some e) ++ ext) =
      runLength Char.isDigit (e.digits ++ ext) + e.sign.length + 1 := by
  have marked : (e.mark == 'e' || e.mark == 'E') = true := by simpa using e.isMark
  have some : runLength Char.isDigit (e.digits ++ ext) ≠ 0 := by
    have digits : Consumes (runLength Char.isDigit) e.digits [] := consumes_run e.isDigit rfl
    have least := digits.least ext
    have wide := List.length_pos_iff.mpr e.notEmpty
    omega
  simp only [exponentChars, List.cons_append, List.append_assoc, exponentLength, marked,
    signLength_sign e ext, List.drop_left, some, if_true, if_false]

theorem consumes_exponent (exponent? : Option Exponent) :
    Consumes exponentLength (exponentChars exponent?) ['i', 'u', 'f'] := by
  cases exponent? with
  | none =>
    refine consumes_nothing fun ext head => ?_
    cases ext with
    | nil => rfl
    | cons c ext =>
      have noMark : (c == 'e' || c == 'E') = false :=
        head.refused (p := fun c => c == 'e' || c == 'E') rfl c rfl
      rw [exponentLength, noMark]
      rfl
  | some e =>
    have digits : Consumes (runLength Char.isDigit) e.digits ['i', 'u', 'f'] :=
      consumes_run e.isDigit rfl
    have size : (exponentChars (some e)).length = e.digits.length + e.sign.length + 1 := by
      simp [exponentChars, Nat.add_comm]
    constructor
    · intro ext
      have least := digits.least ext
      rw [exponentLength_append, size]
      omega
    · intro ext head
      rw [exponentLength_append, size, digits.exact ext head]

theorem consumes_fraction (fraction? : Option (Digits Char.isDigit)) :
    Consumes fractionLength (fractionChars fraction?) ['e', 'E', 'i', 'u', 'f'] := by
  cases fraction? with
  | none =>
    refine consumes_nothing fun ext head => ?_
    cases ext with
    | nil => rfl
    | cons c ext =>
      have other : c ≠ '.' := by
        rintro rfl
        exact absurd (head '.' rfl) (by decide)
      cases ext <;> simp [fractionLength, other]
  | some digits =>
    have parts : Consumes (runLength isDigitPart) digits.rest ['e', 'E', 'i', 'u', 'f'] :=
      consumes_run digits.isPart rfl
    have taken (ext : List Char) : fractionLength (fractionChars (some digits) ++ ext) =
        runLength isDigitPart (digits.rest ++ ext) + 2 := by
      simp only [fractionChars, Digits.chars, List.cons_append, fractionLength, digits.isDigit,
        if_true]
    constructor
    · intro ext
      rw [taken]
      exact Nat.add_le_add_right (parts.least ext) 2
    · intro ext head
      rw [taken, parts.exact ext head]
      rfl

def tailChars (rest : List Char) (fraction? : Option (Digits Char.isDigit))
    (exponent? : Option Exponent) (suffix? : Option NumberType) : List Char :=
  rest ++ (fractionChars fraction? ++ (exponentChars exponent? ++ suffixChars suffix?))

theorem tail_head (fraction? : Option (Digits Char.isDigit)) (exponent? : Option Exponent)
    (suffix? : Option NumberType) :
    HeadIn ['.', 'e', 'E', 'i', 'u', 'f'] (tailChars [] fraction? exponent? suffix?) :=
  (fraction_head fraction?).append ((exponent_head exponent?).append (suffix_head suffix?))

theorem consumes_decimal {rest : List Char} (parts : ∀ c ∈ rest, isDigitPart c = true)
    (fraction? : Option (Digits Char.isDigit)) (exponent? : Option Exponent)
    (suffix? : Option NumberType) :
    Consumes decimalLength (tailChars rest fraction? exponent? suffix?) [] := by
  have whole : Consumes (runLength isDigitPart) rest ['.', 'e', 'E', 'i', 'u', 'f'] :=
    consumes_run parts rfl
  have fraction := whole.andThen (consumes_fraction fraction?) (fraction_head fraction?)
  have exponent := fraction.andThen (consumes_exponent exponent?) (exponent_head exponent?)
  have suffix := exponent.andThen (consumes_suffix suffix?) (suffix_head suffix?)
  simp only [List.append_assoc] at suffix
  exact suffix

theorem numberLength_of_unmarked (first : Char) {cs : List Char}
    (unmarked : ∀ c ∈ cs.head?, (c == 'x' || c == 'X') = false) :
    numberLength first cs = decimalLength cs := by
  match cs with
  | [] | [x] => rfl
  | x :: d :: rest => simp [numberLength_cons_cons, unmarked x rfl]

theorem tail_unmarked {rest : List Char} (parts : ∀ c ∈ rest, isDigitPart c = true)
    (fraction? : Option (Digits Char.isDigit)) (exponent? : Option Exponent)
    (suffix? : Option NumberType) :
    ∀ c ∈ (tailChars rest fraction? exponent? suffix?).head?, (c == 'x' || c == 'X') = false := by
  intro c head
  cases rest with
  | nil =>
    have behind := tail_head fraction? exponent? suffix?
    exact behind.refused (p := fun c => c == 'x' || c == 'X') rfl c head
  | cons d rest =>
    obtain rfl : d = c := Option.some.inj head
    have digit : isDigitPart d = true := parts d List.mem_cons_self
    rw [beq_false_of_class digit rfl, beq_false_of_class digit rfl, Bool.or_self]

theorem consumes_number (n : Numeral) :
    ∃ first cs, n.chars = first :: cs ∧ first.isDigit = true ∧
      Consumes (numberLength first) cs [] := by
  cases n with
  | hex mark isMark digits =>
    have marked : (mark == 'x' || mark == 'X') = true := by simpa using isMark
    have parts : Consumes (runLength isHexPart) digits.rest [] := consumes_run digits.isPart rfl
    have taken (ext : List Char) : numberLength '0' (mark :: digits.chars ++ ext) =
        runLength isHexPart (digits.rest ++ ext) + 2 := by
      simp only [Digits.chars, List.cons_append, numberLength_cons_cons, marked, digits.isDigit]
      rfl
    refine ⟨'0', mark :: digits.chars, rfl, rfl, ?_, ?_⟩
    · intro ext
      rw [taken]
      exact Nat.add_le_add_right (parts.least ext) 2
    · intro ext head
      rw [taken, parts.exact ext head]
      rfl
  | decimal whole fraction? exponent? suffix? =>
    have decimal := consumes_decimal whole.isPart fraction? exponent? suffix?
    have unmarked := tail_unmarked whole.isPart fraction? exponent? suffix?
    refine ⟨whole.first, tailChars whole.rest fraction? exponent? suffix?, rfl, whole.isDigit, ?_⟩
    generalize tailChars whole.rest fraction? exponent? suffix? = cs at decimal unmarked
    cases cs with
    | nil =>
      refine consumes_nothing fun ext head => ?_
      rw [head.eq_nil]
      rfl
    | cons c cs =>
      have same (ext : List Char) : numberLength whole.first (c :: cs ++ ext) =
          decimalLength (c :: cs ++ ext) :=
        numberLength_of_unmarked whole.first unmarked
      constructor
      · intro ext
        rw [same]
        exact decimal.least ext
      · intro ext head
        rw [same]
        exact decimal.exact ext head

theorem numberLength_chars (n : Numeral) :
    ∃ first cs, n.chars = first :: cs ∧ first.isDigit = true ∧
      numberLength first cs = cs.length := by
  obtain ⟨first, cs, chars, digit, consumes⟩ := n.consumes_number
  have whole := consumes.exact [] (headIn_nil [])
  rw [List.append_nil] at whole
  exact ⟨first, cs, chars, digit, whole⟩

/-! ## What is read as a number is a numeral -/

theorem exists_suffix (cs : List Char) :
    ∃ suffix?, suffixChars suffix? = cs.take (suffixLength cs) := by
  rcases suffixLength_eq_zero_or cs with none | found
  · exact ⟨.none, by rw [none]; rfl⟩
  · obtain ⟨t, chars⟩ := NumberType.exists_of_mem_suffixes found
    exact ⟨some t, chars⟩

theorem exists_fraction (cs : List Char) :
    ∃ fraction?, fractionChars fraction? = cs.take (fractionLength cs) := by
  unfold fractionLength
  split
  · rename_i d rest
    split
    · rename_i digit
      refine ⟨some ⟨d, rest.takeWhile isDigitPart, digit,
        List.all_eq_true.mp List.all_takeWhile⟩, ?_⟩
      simp [fractionChars, Digits.chars, take_runLength]
    · exact ⟨none, rfl⟩
  · exact ⟨none, rfl⟩

theorem take_signLength (cs : List Char) : cs.take (signLength cs) ∈ [[], ['+'], ['-']] := by
  cases cs with
  | nil => decide
  | cons s rest =>
    by_cases signed : (s == '+' || s == '-') = true
    · rw [signLength, if_pos signed]
      simpa using signed
    · simp [signLength, signed]

theorem exists_exponent (cs : List Char) :
    ∃ exponent?, exponentChars exponent? = cs.take (exponentLength cs) := by
  unfold exponentLength
  split
  · rename_i e rest
    dsimp only
    split
    · rename_i marked
      split
      · exact ⟨none, rfl⟩
      · rename_i some
        have digits := take_runLength Char.isDigit (rest.drop (signLength rest))
        refine ⟨.some ⟨e, rest.take (signLength rest),
          (rest.drop (signLength rest)).takeWhile Char.isDigit, by simpa using marked,
          take_signLength rest, List.all_eq_true.mp List.all_takeWhile, ?_⟩, ?_⟩
        · exact fun none => some (List.length_eq_zero_iff.mpr none)
        · rw [List.take_succ_cons, Nat.add_comm, List.take_add, digits]
          rfl
    · exact ⟨none, rfl⟩
  · exact ⟨none, rfl⟩

theorem exists_decimal {first : Char} (digit : first.isDigit = true) (cs : List Char) :
    ∃ n : Numeral, n.chars = first :: cs.take (decimalLength cs) := by
  let whole := runLength isDigitPart cs
  obtain ⟨fraction?, fraction⟩ := exists_fraction (cs.drop whole)
  let length := whole + fractionLength (cs.drop whole)
  obtain ⟨exponent?, exponent⟩ := exists_exponent (cs.drop length)
  obtain ⟨suffix?, suffix⟩ :=
    exists_suffix (cs.drop (length + exponentLength (cs.drop length)))
  refine ⟨.decimal ⟨first, cs.takeWhile isDigitPart, digit,
    List.all_eq_true.mp List.all_takeWhile⟩ fraction? exponent? suffix?, ?_⟩
  have taken : cs.take (decimalLength cs) = cs.take whole ++
      (fractionChars fraction? ++ (exponentChars exponent? ++ suffixChars suffix?)) := by
    rw [fraction, exponent, suffix]
    simp only [decimalLength, List.take_add, List.append_assoc]
    rfl
  rw [taken, take_runLength]
  rfl

theorem exists_numeral {first : Char} (digit : first.isDigit = true) (cs : List Char) :
    ∃ n : Numeral, n.chars = first :: cs.take (numberLength first cs) := by
  unfold numberLength
  split
  · rename_i x d rest
    split
    · rename_i hex
      simp only [Bool.and_eq_true, beq_iff_eq] at hex
      obtain ⟨⟨rfl, marked⟩, hexDigit⟩ := hex
      refine ⟨.hex x (by simpa using marked) ⟨d, rest.takeWhile isHexPart, hexDigit,
        List.all_eq_true.mp List.all_takeWhile⟩, ?_⟩
      rw [List.take_succ_cons, List.take_succ_cons, take_runLength]
      rfl
    · exact exists_decimal digit _
  · exact exists_decimal digit _

theorem start_digit {first : Char} (digit : first.isDigit = true) (cs : List Char) :
    start first cs = .lexeme number (numberLength first cs) := by
  have unquoted : isQuote first = false := by
    rw [isQuote, beq_false_of_class digit rfl, beq_false_of_class digit rfl, Bool.or_self]
  have noString : quotedFrom first cs = none := by
    cases cs <;> simp [quotedFrom, unquoted, isAlpha_of_isDigit digit]
  simp only [start, noString, digit, if_true]

/-- The numbers that are read in sources are the texts of numerals. -/
theorem produced_number_iff {raw : String} :
    (Lexeme.number raw).Produced ↔ ∃ n : Numeral, n.text = raw := by
  rw [produced_iff_alone (by simp) (by simp)]
  constructor
  · rintro ⟨first, cs, make, chars, kept, noComment, starts, made⟩
    obtain ⟨-, digit, length⟩ := (starts_of_start starts).of_number made
    obtain ⟨n, same⟩ := exists_numeral digit cs
    rw [← length, List.take_length] at same
    exact ⟨n, String.toList_injective (by rw [text, String.toList_ofList, same, ← chars]; rfl)⟩
  · rintro ⟨n, rfl⟩
    obtain ⟨first, cs, chars, digit, length⟩ := n.numberLength_chars
    refine ⟨first, cs, Lexeme.number, String.toList_ofList.trans chars, ?_, ?_, ?_, rfl⟩
    · simp [isBlank, beq_false_of_class digit]
    · rintro rfl
      cases digit
    · rw [start_digit digit, length]

end Numeral

end ExprCheck
