import ExprCheck.Ty
/-! Literals, whose values and types follow from their text alone. The readings of numbers and
strings are total: a text that is no literal gets an answer by the same rules. -/
namespace ExprCheck

/-- The text of a number without its leading minus signs and its underscores, in lower case. -/
def numberCore (raw : String) : List Char :=
  ((raw.toList.dropWhile (· == '-')).filter (· != '_')).map Char.toLower

/-- A hexadecimal number is an `i32`. Any other number has the type that its suffix names; without
a suffix it is an `f64` if it has a point or an exponent and an `i32` if not. -/
def Ty.ofNumber (raw : String) : Ty :=
  let text := numberCore raw
  if "0x".toList.isPrefixOf text then .int .i32
  else
    match IntType.all.find? fun ty => ty.name.toList.isSuffixOf text with
    | some ty => .int ty
    | none =>
        match FloatType.all.find? fun ty => ty.name.toList.isSuffixOf text with
        | some ty => .float ty
        | none => if text.contains '.' || text.contains 'e' then .float .f64 else .int .i32

/-- The value of a string is what stands between its first quote and its last; the quote is the
last character of the text. A `c` of either case before the first quote makes it a `char`. -/
def unquote (raw : String) : String × Ty :=
  match raw.toList.getLast? with
  | none => ("", .str)
  | some quote =>
      let marks := raw.toList.takeWhile (· != quote)
      let body := (raw.toList.drop (marks.length + 1)).dropLast
      (String.ofList body, if marks.any fun c => c == 'c' || c == 'C' then .char else .str)

/-- A literal as written. A default value may be a number with a minus sign in front. -/
inductive Literal where
  | str (raw : String)
  | number (raw : String)
  | bool (value : Bool)
deriving DecidableEq, Repr, Inhabited

namespace Literal

/-- What a literal stands for: a string loses its quotes and what stands before them. -/
def value : Literal → String
  | str raw => (unquote raw).1
  | number raw => raw
  | bool true => "True"
  | bool false => "False"

def ty : Literal → Ty
  | str raw => (unquote raw).2
  | number raw => Ty.ofNumber raw
  | bool _ => .bool

def ofName? : String → Option Literal
  | "True" => some (bool true)
  | "False" => some (bool false)
  | _ => none

end Literal

end ExprCheck
