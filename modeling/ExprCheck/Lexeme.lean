import ExprCheck.Bracket
import ExprCheck.Source
/-! Lexemes: the flat pieces of a source text, before brackets are matched. A lexeme keeps its text
wherever the text is not fixed by its kind. Keywords and the literals `True` and `False` are names
at this level. -/
namespace ExprCheck

inductive Lexeme where
  | str (text : String)
  | number (text : String)
  | name (text : String)
  | op (text : String)
  | dot
  | comma
  | opening (bracket : Bracket)
  | closing (bracket : Bracket)
  | comment (text : String)
  | newline
deriving DecidableEq, Repr, Inhabited

namespace Lexeme

/-- How a message shows the lexeme: its text, or the word for a line feed. -/
def display : Lexeme → String
  | str text | number text | name text | op text | comment text => text
  | dot => "."
  | comma => ","
  | opening bracket => bracket.opening.toString
  | closing bracket => bracket.closing.toString
  | newline => "newline"

/-- Line feeds and comments separate lexemes but mean nothing to a declaration. -/
def isTrivia : Lexeme → Bool
  | comment _ | newline => true
  | _ => false

end Lexeme

inductive LexCause where
  | invalidCharacter (text : String)
  | unmatchedClose (found : Bracket)
  | mismatchedClose (expected found : Bracket)
  | unclosed (bracket : Bracket)
deriving DecidableEq, Repr

structure LexError where
  cause : LexCause
  place : Place
deriving DecidableEq, Repr

def LexError.message (e : LexError) : String :=
  match e.cause with
  | .invalidCharacter text => s!"SyntaxError: invalid character `{text}`"
  | .unmatchedClose found => s!"SyntaxError: unmatched `{found.closing}`"
  | .mismatchedClose expected found =>
      s!"SyntaxError: closing `{found.closing}` does not match opening `{expected.opening}`"
  | .unclosed bracket => s!"SyntaxError: `{bracket.opening}` was never closed"

end ExprCheck
