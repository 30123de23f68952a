import ExprCheck.Source
/-! Positions in a text that stands further down in another. The text before it counts its bytes and
its line feeds; every position moves by both. -/
namespace ExprCheck

/-- What stands in front of a text: bytes, and lines that end there. -/
structure Shift where
  bytes : Nat
  lines : Nat
deriving DecidableEq, Repr

/-- What stands in front of a text that follows another one and a line feed. -/
def Shift.past (text : String) : Shift :=
  ⟨text.utf8ByteSize + 1, text.toList.count '\n' + 1⟩

variable (d : Shift)

def Span.moved (s : Span) : Span :=
  ⟨d.bytes + s.start, d.bytes + s.stop⟩

def Place.moved (p : Place) : Place :=
  ⟨p.span.moved d, d.lines + p.line⟩

def Spanned.moved {α : Type} (x : Spanned α) : Spanned α :=
  ⟨x.value, x.span.moved d⟩

theorem Span.join_moved (a b : Span) : (a.moved d).join (b.moved d) = (a.join b).moved d := by
  simp [Span.join, Span.moved, Nat.add_min_add_left, Nat.add_max_add_left]

end ExprCheck
