/-! Positions in a source text. Offsets count bytes of the UTF-8 encoding, lines start at 1, and a
line ends after its line feed only. Columns belong to the reports and are not covered here. -/
namespace ExprCheck

structure Span where
  start : Nat
  stop : Nat
deriving DecidableEq, Repr, Inhabited

namespace Span

def join (a b : Span) : Span :=
  ⟨min a.start b.start, max a.stop b.stop⟩

/-- The number of bytes; a reversed range has none. -/
def width (s : Span) : Nat :=
  s.stop - s.start

def point (offset : Nat) : Span :=
  ⟨offset, offset⟩

end Span

structure Place where
  span : Span
  line : Nat
deriving DecidableEq, Repr, Inhabited

structure Spanned (α : Type) where
  value : α
  span : Span
deriving DecidableEq, Repr

def feedsBefore : List Char → Nat → Nat
  | [], _ => 0
  | _, 0 => 0
  | c :: rest, offset + 1 =>
      (if c = '\n' then 1 else 0) + feedsBefore rest (offset + 1 - c.utf8Size)

/-- The line of a byte offset; an offset past the end is on the last line. -/
def lineOf (source : String) (offset : Nat) : Nat :=
  feedsBefore source.toList offset + 1

def byteLength : List Char → Nat
  | [] => 0
  | c :: rest => c.utf8Size + byteLength rest

end ExprCheck
