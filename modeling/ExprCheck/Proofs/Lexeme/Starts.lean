import ExprCheck.Lexeme.Scan
/-! The rules by which a lexeme starts. A lexeme is read by the rule that its first characters call
for. What is to be shown of every lexeme of a source is shown for each of these rules. -/
namespace ExprCheck.Lexeme

/-- A rule that reads a lexeme here: how the lexeme is made from its text, and how many characters
it takes behind the first. -/
inductive Starts (first : Char) (cs : List Char) : (String → Lexeme) → Nat → Prop
  | str {more : Nat} (closed : quotedFrom first cs = some (.closed more)) : Starts first cs str more
  | number (digit : first.isDigit = true) : Starts first cs number (numberLength first cs)
  | name (word : isWordStart first = true) : Starts first cs name (runLength isWord cs)
  | comment (hash : first = '#') : Starts first cs comment (runLength (· != '\n') cs)
  | punctuation {l : Lexeme} (found : punctuation? first = some l) : Starts first cs (fun _ => l) 0
  | doubleOp {second : Char} (follows : cs.head? = some second)
      (double : isDoubleOp first second = true) : Starts first cs op 1
  | singleOp (single : isSingleOp first = true) : Starts first cs op 0

theorem starts_of_start {first : Char} {cs : List Char} {make : String → Lexeme} {more : Nat}
    (starts : start first cs = .lexeme make more) : Starts first cs make more := by
  unfold start at starts
  split at starts
  · rename_i closed
    cases starts
    exact .str closed
  · cases starts
  split at starts
  · rename_i digit
    cases starts
    exact .number digit
  split at starts
  · rename_i word
    cases starts
    exact .name word
  split at starts
  · rename_i hash
    cases starts
    exact .comment hash
  split at starts
  · rename_i found
    cases starts
    exact .punctuation found
  split at starts
  · rename_i follows
    split at starts
    · rename_i double
      cases starts
      exact .doubleOp follows double
    split at starts
    · rename_i single
      cases starts
      exact .singleOp single
    · cases starts
  · split at starts
    · rename_i single
      cases starts
      exact .singleOp single
    · cases starts

theorem textless_of_punctuation {c : Char} {l : Lexeme} (found : punctuation? c = some l)
    (raw : String) : l ≠ .str raw ∧ l ≠ .number raw := by
  unfold punctuation? at found
  split at found <;> cases found <;> exact ⟨nofun, nofun⟩

namespace Starts

variable {first : Char} {cs : List Char} {make : String → Lexeme} {more : Nat} {text raw : String}

theorem of_str (h : Starts first cs make more) (made : make text = .str raw) :
    text = raw ∧ quotedFrom first cs = some (.closed more) := by
  cases h with
  | str closed =>
    cases made
    exact ⟨rfl, closed⟩
  | punctuation found => exact absurd made (textless_of_punctuation found raw).1
  | _ => cases made

theorem of_number (h : Starts first cs make more) (made : make text = .number raw) :
    text = raw ∧ first.isDigit = true ∧ more = numberLength first cs := by
  cases h with
  | number digit =>
    cases made
    exact ⟨rfl, digit, rfl⟩
  | punctuation found => exact absurd made (textless_of_punctuation found raw).2
  | _ => cases made

end Starts

end ExprCheck.Lexeme
