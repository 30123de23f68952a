import ExprCheck.Proofs.Lexeme.Starts
/-! Names and the dots between them. Names that hold no dot can be read back out of the dotted name
that they make, and the names that a source is scanned to hold none. -/
namespace ExprCheck

/-- The names between the dots of a text. -/
def dotParts (text : String) : List String :=
  (text.toList.splitOn '.').map String.ofList

theorem dotParts_ne_nil (text : String) : dotParts text ≠ [] := by
  intro none
  exact List.splitOn_ne_nil '.' text.toList (List.map_eq_nil_iff.mp none)

theorem intercalate_dotParts (text : String) : ".".intercalate (dotParts text) = text := by
  apply String.toList_injective
  have chars : (dotParts text).map String.toList = text.toList.splitOn '.' := by
    simp [dotParts]
  rw [String.toList_intercalate, chars]
  exact List.intercalate_splitOn '.'

theorem dotParts_intercalate {names : List String} (some : names ≠ [])
    (dotless : ∀ name ∈ names, '.' ∉ name.toList) : dotParts (".".intercalate names) = names := by
  have chars : (".".intercalate names).toList = ['.'].intercalate (names.map String.toList) :=
    String.toList_intercalate
  unfold dotParts
  rw [chars, List.splitOn_intercalate '.' (by simpa using dotless) (by simpa using some)]
  simp

namespace Lexeme

/-- The texts that a source is scanned to: names hold word characters only, and numbers start with
a digit. -/
def IsScanned : Lexeme → Prop
  | name text => ∀ c ∈ text.toList, isWord c = true
  | number text => ∃ d digits, text.toList = d :: digits ∧ d.isDigit = true
  | _ => True

theorem dotless_of_isScanned {text : String} (scanned : (name text).IsScanned) :
    '.' ∉ text.toList := by
  intro dot
  cases scanned '.' dot

theorem take_runLength (p : Char → Bool) (cs : List Char) :
    cs.take (runLength p cs) = cs.takeWhile p :=
  (List.prefix_iff_eq_take.mp (List.takeWhile_prefix p)).symm

theorem isWord_of_isWordStart {c : Char} (starts : isWordStart c = true) : isWord c = true := by
  unfold isWordStart at starts
  unfold isWord Char.isAlphanum
  rcases Bool.or_eq_true_iff.mp starts with alpha | score
  · simp [alpha]
  · simp [score]

theorem isScanned_of_punctuation {c : Char} {l : Lexeme} (found : punctuation? c = some l) :
    l.IsScanned := by
  unfold punctuation? at found
  split at found <;> cases found <;> trivial

theorem isScanned_of_start {first : Char} {cs : List Char} {make : String → Lexeme} {more : Nat}
    (starts : start first cs = .lexeme make more) :
    (make (String.ofList (first :: cs.take more))).IsScanned := by
  cases starts_of_start starts with
  | number digit => exact ⟨first, _, String.toList_ofList, digit⟩
  | name word =>
    intro c mem
    rw [String.toList_ofList, take_runLength] at mem
    rcases List.mem_cons.mp mem with rfl | taken
    · exact isWord_of_isWordStart word
    · exact List.all_eq_true.mp List.all_takeWhile c taken
  | punctuation found => exact isScanned_of_punctuation found
  | _ => trivial

theorem isScanned_of_scanFrom {offset line : Nat} {cs : List Char} {ls : List (Spanned Lexeme)}
    (scanned : scanFrom offset line cs = .ok ls) : ∀ l ∈ ls, l.value.IsScanned := by
  fun_induction scanFrom offset line cs generalizing ls with
  | case1 =>
    cases scanned
    exact fun l mem => nomatch mem
  | case2 offset line first cs blank ih => exact ih scanned
  | case3 offset line first cs kept make more starts text stop lexeme line' rest below =>
    rename_i ih
    cases scanned
    exact List.forall_mem_cons.mpr ⟨isScanned_of_start starts, ih below⟩
  | case4 => cases scanned
  | case5 => cases scanned

theorem isScanned_of_scan {source : String} {ls : List (Spanned Lexeme)}
    (scanned : scan source = .ok ls) : ∀ l ∈ ls, l.value.IsScanned :=
  isScanned_of_scanFrom scanned

end Lexeme

end ExprCheck
