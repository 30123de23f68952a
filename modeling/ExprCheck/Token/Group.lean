import ExprCheck.Lexeme.Scan
import ExprCheck.Token
/-! Matching brackets: from the lexemes of a source to its tokens. The reading keeps one level per
open bracket and one for the line outside all brackets. Comments are dropped, and so are line feeds
inside brackets. The span of a tuple covers its items and its first comma. -/
namespace ExprCheck

/-- What has been read at one depth: the items that a comma has ended, the item being read, and
the place of the first comma. -/
structure Level where
  items : List (List Token)
  current : List Token
  comma : Option Place
deriving Repr, Inhabited

namespace Level

def empty : Level :=
  ⟨[], [], none⟩

def push (l : Level) (t : Token) : Level :=
  { l with current := l.current ++ [t] }

def separate (l : Level) (comma : Place) : Level :=
  ⟨l.items ++ [l.current], [], l.comma.orElse fun _ => some comma⟩

/-- The tokens of a finished level; a comma makes them one tuple, which lies where its first token
lies, or where its comma does if no item has a token. -/
def finish (l : Level) : List Token :=
  match l.comma with
  | none => l.current
  | some comma =>
      let items := l.items ++ [l.current]
      let spans := items.flatten.map fun t => t.place.span
      let span := spans.foldl Span.join comma.span
      let line := match items.flatten with
        | t :: _ => t.place.line
        | [] => comma.line
      [.tuple items ⟨span, line⟩]

end Level

structure Pending where
  bracket : Bracket
  place : Place
  level : Level
deriving Repr

/-- The state between two lexemes. The innermost open bracket comes first. -/
structure Grouping where
  top : Level
  pending : List Pending
  output : List Token
  line : Nat
deriving Repr

namespace Grouping

def initial : Grouping :=
  ⟨.empty, [], [], 1⟩

def mapLevel (g : Grouping) (f : Level → Level) : Grouping :=
  match g.pending with
  | [] => { g with top := f g.top }
  | p :: rest => { g with pending := { p with level := f p.level } :: rest }

def push (g : Grouping) (t : Token) : Grouping :=
  g.mapLevel (·.push t)

def flush (g : Grouping) : Grouping :=
  { g with top := .empty, output := g.output ++ g.top.finish }

/-- Closes the innermost bracket, which must be of the kind found. -/
def close (g : Grouping) (found : Bracket) (span : Span) : Except LexError Grouping :=
  match g.pending with
  | [] => .error ⟨.unmatchedClose found, span, g.line⟩
  | p :: rest =>
      if p.bracket = found then
        .ok ({ g with pending := rest }.push
          (.group found p.level.finish ⟨p.place.span.join span, p.place.line⟩))
      else .error ⟨.mismatchedClose p.bracket found, span, g.line⟩

/-- A line feed ends the line, and outside all brackets it is a token. -/
def newline (g : Grouping) (span : Span) : Grouping :=
  let g' := match g.pending with
    | [] => { g.flush with output := g.flush.output ++ [Token.leaf .newline ⟨span, g.line⟩] }
    | _ :: _ => g
  { g' with line := g.line + 1 }

def step (g : Grouping) (l : Spanned Lexeme) : Except LexError Grouping :=
  let place : Place := ⟨l.span, g.line⟩
  match l.value with
  | .newline => .ok (g.newline l.span)
  | .comment _ => .ok g
  | .comma => .ok (g.mapLevel (·.separate place))
  | .opening bracket => .ok { g with pending := ⟨bracket, place, .empty⟩ :: g.pending }
  | .closing bracket => g.close bracket l.span
  | .str text => .ok (g.push (.leaf (.str text) place))
  | .number text => .ok (g.push (.leaf (.number text) place))
  | .name text => .ok (g.push (.leaf (.name text) place))
  | .op text => .ok (g.push (.leaf (.op text) place))
  | .dot => .ok (g.push (.leaf .dot place))

/-- Ends the reading; an open bracket is a fault at the outermost one. -/
def finish (g : Grouping) (eof : Nat) : Except LexError (List Token) :=
  match g.pending.getLast? with
  | some p => .error ⟨.unclosed p.bracket, p.place⟩
  | none => .ok (g.flush.output ++ [.leaf .endMarker ⟨.point eof, g.line⟩])

end Grouping

/-- Matches the brackets of the lexemes of a source that ends at a byte offset. -/
def matchBrackets (lexemes : List (Spanned Lexeme)) (eof : Nat) : Except LexError (List Token) := do
  (← lexemes.foldlM Grouping.step .initial).finish eof

def tokenize (source : String) : Except LexError (List Token) := do
  matchBrackets (← Lexeme.scan source) source.utf8ByteSize

end ExprCheck
