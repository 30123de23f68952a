import ExprCheck.Proofs.Literal.Numeral
import ExprCheck.Ty.Literal
/-! The types of numbers. The type of a number is found without taking the number apart: underscores
are dropped, letters are put in lower case, and then only the start, the end and the letters in it
are looked at. Main statement: what is found is what the parts of the number say, with a minus sign
in front or not. -/
namespace ExprCheck

/-! ## Numbers in lower case -/

/-- Characters without underscores and in lower case. -/
def folded (cs : List Char) : List Char :=
  (cs.filter (· != '_')).map Char.toLower

@[simp] theorem folded_append (cs ds : List Char) : folded (cs ++ ds) = folded cs ++ folded ds := by
  simp [folded]

theorem isDigit_of_mem_folded {cs : List Char} (parts : ∀ c ∈ cs, Lexeme.isDigitPart c = true) :
    ∀ c ∈ folded cs, c.isDigit = true := by
  intro c mem
  obtain ⟨d, kept, rfl⟩ := List.mem_map.mp mem
  obtain ⟨among, other⟩ := List.mem_filter.mp kept
  have digit : d.isDigit = true := by
    have noScore : d ≠ '_' := by simpa using other
    simpa [Lexeme.isDigitPart, noScore] using parts d among
  rwa [toLower_of_isDigit digit]

theorem folded_digits {cs : List Char} (digits : ∀ c ∈ cs, c.isDigit = true) : folded cs = cs := by
  have kept : cs.filter (· != '_') = cs := by
    refine List.filter_eq_self.mpr fun c mem => ?_
    simp [bne, Lexeme.beq_false_of_class (digits c mem)]
  rw [folded, kept]
  exact (List.map_congr_left fun c mem => toLower_of_isDigit (digits c mem)).trans (List.map_id cs)

theorem numberCore_minus (raw : String) : numberCore ("-" ++ raw) = numberCore raw := by
  simp [numberCore]

theorem Ty.ofNumber_minus (raw : String) : Ty.ofNumber ("-" ++ raw) = Ty.ofNumber raw := by
  simp only [Ty.ofNumber, numberCore_minus]

theorem Numeral.numberCore_text (n : Numeral) : numberCore n.text = folded n.chars := by
  obtain ⟨first, cs, chars, digit, -⟩ := n.numberLength_chars
  have noMinus : (first == '-') = false := Lexeme.beq_false_of_class digit rfl
  have text : n.text.toList = first :: cs := String.toList_ofList.trans chars
  rw [numberCore, text, chars, List.dropWhile_cons_of_neg (by simp [noMinus])]
  rfl

/-! ## What the parts of a numeral show in lower case -/

namespace Numeral

theorem folded_suffix (suffix? : Option NumberType) :
    folded (suffixChars suffix?) = suffixChars suffix? := by
  rcases suffix? with _ | (ty | ty)
  · rfl
  · cases ty <;> decide
  · cases ty <;> decide

theorem suffix_unmarked (suffix? : Option NumberType) : 'x' ∉ suffixChars suffix? := by
  rcases suffix? with _ | (ty | ty)
  · decide
  · cases ty <;> decide
  · cases ty <;> decide

theorem folded_fraction (digits : Digits Char.isDigit) :
    folded (fractionChars (some digits)) = '.' :: folded digits.chars :=
  rfl

theorem folded_exponent (e : Exponent) :
    folded (exponentChars (some e)) = 'e' :: (e.sign ++ e.digits) := by
  have mark : folded [e.mark] = ['e'] := by
    have marks : e.mark = 'e' ∨ e.mark = 'E' := by simpa using e.isMark
    rcases marks with same | same <;> rw [same] <;> rfl
  have sign : folded e.sign = e.sign := by
    rcases e.sign_cases with same | same | same <;> rw [same] <;> rfl
  have parts : exponentChars (some e) = [e.mark] ++ (e.sign ++ e.digits) := rfl
  rw [parts, folded_append, folded_append, mark, sign, folded_digits e.isDigit]
  rfl

def bodyChars (whole : Digits Char.isDigit) (fraction? : Option (Digits Char.isDigit))
    (exponent? : Option Exponent) : List Char :=
  whole.chars ++ (fractionChars fraction? ++ exponentChars exponent?)

variable {whole : Digits Char.isDigit} {fraction? : Option (Digits Char.isDigit)}
  {exponent? : Option Exponent}

theorem mem_folded_body {c : Char} (mem : c ∈ folded (bodyChars whole fraction? exponent?)) :
    c.isDigit = true ∨ c = '.' ∧ fraction?.isSome ∨ c ∈ ['e', '+', '-'] ∧ exponent?.isSome := by
  rw [bodyChars, folded_append, folded_append] at mem
  rcases List.mem_append.mp mem with inWhole | behind
  · exact .inl (isDigit_of_mem_folded whole.chars_isPart c inWhole)
  rcases List.mem_append.mp behind with inFraction | inExponent
  · cases fraction? with
    | none => cases inFraction
    | some digits =>
      rw [folded_fraction] at inFraction
      rcases List.mem_cons.mp inFraction with point | digit
      · exact .inr (.inl ⟨point, rfl⟩)
      · exact .inl (isDigit_of_mem_folded digits.chars_isPart c digit)
  · cases exponent? with
    | none => cases inExponent
    | some e =>
      rw [folded_exponent] at inExponent
      rcases List.mem_cons.mp inExponent with mark | signed
      · exact .inr (.inr ⟨by simp [mark], rfl⟩)
      rcases List.mem_append.mp signed with sign | digit
      · refine .inr (.inr ⟨?_, rfl⟩)
        rcases e.sign_cases with same | same | same <;> rw [same] at sign
        · cases sign
        · exact List.mem_cons_of_mem _ (List.mem_append_left ['-'] sign)
        · exact List.mem_cons_of_mem _ (List.mem_cons_of_mem _ sign)
      · exact .inl (e.isDigit c digit)

theorem point_mem_iff :
    '.' ∈ folded (bodyChars whole fraction? exponent?) ↔ fraction?.isSome := by
  constructor
  · intro mem
    rcases mem_folded_body mem with digit | ⟨-, fraction⟩ | ⟨mark, -⟩
    · cases digit
    · exact fraction
    · exact absurd mark (by decide)
  · intro fraction
    obtain ⟨digits, rfl⟩ := Option.isSome_iff_exists.mp fraction
    simp [bodyChars, folded_fraction]

theorem mark_mem_iff :
    'e' ∈ folded (bodyChars whole fraction? exponent?) ↔ exponent?.isSome := by
  constructor
  · intro mem
    rcases mem_folded_body mem with digit | ⟨point, -⟩ | ⟨-, exponent⟩
    · cases digit
    · exact absurd point (by decide)
    · exact exponent
  · intro exponent
    obtain ⟨e, rfl⟩ := Option.isSome_iff_exists.mp exponent
    simp [bodyChars, folded_exponent]

theorem not_mem_folded_body {c : Char} (letter : c ∈ ['x', 'i', 'u', 'f']) :
    c ∉ folded (bodyChars whole fraction? exponent?) := by
  intro mem
  have other : ['x', 'i', 'u', 'f'].all
      (fun c => !c.isDigit && c != '.' && !(['e', '+', '-'].contains c)) = true := rfl
  have apart := List.all_eq_true.mp other c letter
  rcases mem_folded_body mem with digit | ⟨point, -⟩ | ⟨mark, -⟩ <;> simp_all

end Numeral

/-! ## Types -/

namespace Ty

theorem eq_of_chars_suffix {t t' : NumberType} (ends : t.chars <:+ t'.chars) : t = t' := by
  rcases t with ty | ty <;> rcases t' with ty' | ty' <;> cases ty <;> cases ty' <;>
    first | rfl | exact absurd ends (by decide)

theorem isSuffixOf_chars (body : List Char) (t t' : NumberType) :
    t'.chars.isSuffixOf (body ++ t.chars) = decide (t' = t) := by
  have own : t.chars <:+ body ++ t.chars := List.suffix_append body t.chars
  by_cases same : t' = t
  · rw [same, decide_eq_true rfl]
    exact List.isSuffixOf_iff_suffix.mpr own
  · rw [decide_eq_false same, Bool.eq_false_iff]
    intro other
    rcases List.suffix_or_suffix_of_suffix (List.isSuffixOf_iff_suffix.mp other) own with
      longer | shorter
    · exact same (eq_of_chars_suffix longer)
    · exact same (eq_of_chars_suffix shorter).symm

theorem isPrefixOf_mark {text : List Char} (decimal : 'x' ∉ text) :
    "0x".toList.isPrefixOf text = false := by
  apply Bool.eq_false_iff.mpr
  intro hex
  exact decimal ((List.isPrefixOf_iff_prefix.mp hex).subset (by decide))

theorem ofNumber_of_suffix {raw : String} {body : List Char} {t : NumberType}
    (core : numberCore raw = body ++ t.chars) (decimal : 'x' ∉ numberCore raw) :
    Ty.ofNumber raw = t.ty := by
  have named (t' : NumberType) : t'.chars.isSuffixOf (numberCore raw) = decide (t' = t) := by
    rw [core, isSuffixOf_chars]
  have ints (ty : IntType) : ty.name.toList.isSuffixOf (numberCore raw) = decide (.int ty = t) :=
    named (.int ty)
  have floats (ty : FloatType) :
      ty.name.toList.isSuffixOf (numberCore raw) = decide (.float ty = t) :=
    named (.float ty)
  simp only [Ty.ofNumber, isPrefixOf_mark decimal, ints, floats]
  rcases t with ty | ty <;> cases ty <;> rfl

theorem isSuffixOf_eq_false {text : List Char} (plain : ∀ c ∈ ['i', 'u', 'f'], c ∉ text)
    (t : NumberType) : t.chars.isSuffixOf text = false := by
  obtain ⟨c, letter, rest, chars⟩ := t.chars_eq_cons
  apply Bool.eq_false_iff.mpr
  intro ends
  refine plain c letter ((List.isSuffixOf_iff_suffix.mp ends).subset ?_)
  rw [chars]
  exact List.mem_cons_self

theorem ofNumber_of_plain {raw : String} (decimal : 'x' ∉ numberCore raw)
    (plain : ∀ c ∈ ['i', 'u', 'f'], c ∉ numberCore raw) :
    Ty.ofNumber raw =
      if '.' ∈ numberCore raw ∨ 'e' ∈ numberCore raw then .float .f64 else .int .i32 := by
  have ints : IntType.all.find? (fun ty => ty.name.toList.isSuffixOf (numberCore raw)) = none :=
    List.find?_eq_none.mpr fun ty _ => Bool.eq_false_iff.mp (isSuffixOf_eq_false plain (.int ty))
  have floats : FloatType.all.find? (fun ty => ty.name.toList.isSuffixOf (numberCore raw)) = none :=
    List.find?_eq_none.mpr fun ty _ => Bool.eq_false_iff.mp (isSuffixOf_eq_false plain (.float ty))
  simp only [Ty.ofNumber, isPrefixOf_mark decimal, ints, floats, Bool.false_eq_true, if_false,
    Bool.or_eq_true, List.contains_iff_mem]

end Ty

namespace Numeral

/-- The type that the parts of a numeral say. -/
def ty : Numeral → Ty
  | hex .. => .int .i32
  | decimal _ _ _ (some t) => t.ty
  | decimal _ none none none => .int .i32
  | decimal .. => .float .f64

theorem ofNumber_text (n : Numeral) : Ty.ofNumber n.text = n.ty := by
  have core := n.numberCore_text
  cases n with
  | hex mark isMark digits =>
    have lower : folded [mark] = ['x'] := by
      have marks : mark = 'x' ∨ mark = 'X' := by simpa using isMark
      rcases marks with same | same <;> rw [same] <;> rfl
    have parts : (hex mark isMark digits).chars = ['0'] ++ ([mark] ++ digits.chars) := rfl
    rw [parts, folded_append, folded_append, lower] at core
    simp only [Ty.ofNumber, core]
    rfl
  | decimal whole fraction? exponent? suffix? =>
    have parts : folded (decimal whole fraction? exponent? suffix?).chars =
        folded (bodyChars whole fraction? exponent?) ++ suffixChars suffix? := by
      simp [chars, bodyChars, folded_suffix]
    rw [parts] at core
    have noMark : 'x' ∉ numberCore (decimal whole fraction? exponent? suffix?).text := by
      rw [core, List.mem_append]
      rintro (inBody | inSuffix)
      · exact not_mem_folded_body (by decide) inBody
      · exact suffix_unmarked suffix? inSuffix
    cases suffix? with
    | some t => exact Ty.ofNumber_of_suffix core noMark
    | none =>
      rw [suffixChars, List.append_nil] at core
      have plain : ∀ c ∈ ['i', 'u', 'f'],
          c ∉ numberCore (decimal whole fraction? exponent? none).text := by
        rw [core]
        exact fun c letter => not_mem_folded_body (List.mem_cons_of_mem _ letter)
      simp only [Ty.ofNumber_of_plain noMark plain, core, point_mem_iff, mark_mem_iff]
      cases fraction? <;> cases exponent? <;> rfl

/-- The numbers that are read in sources are the numerals, and the type of a numeral is the one that
its parts say, also behind a minus sign: the type that its suffix names, if there is one, and else
`i32` for hexadecimal digits, `f64` for a fraction or an exponent, and `i32` without them. -/
theorem types_of_numbers :
    (∀ raw, (Lexeme.number raw).Produced ↔ ∃ n : Numeral, n.text = raw) ∧
    ∀ n : Numeral, Ty.ofNumber n.text = n.ty ∧ Ty.ofNumber ("-" ++ n.text) = n.ty := by
  refine ⟨fun raw => produced_number_iff, fun n => ⟨n.ofNumber_text, ?_⟩⟩
  rw [Ty.ofNumber_minus, n.ofNumber_text]

/- Hexadecimal digits may look like a suffix, and an underscore may stand in front of one. -/
example : Ty.ofNumber "0x1f32" = .int .i32 ∧ Ty.ofNumber "-1_u8" = .int .u8 := by decide +kernel

end Numeral

end ExprCheck
