/-! Classes of characters, given as inclusive ranges of code points. -/
namespace ExprCheck.Unicode

def within (ranges : List (Nat × Nat)) (c : Char) : Bool :=
  ranges.any fun (first, last) => first ≤ c.toNat && c.toNat ≤ last

/-- White space in the sense of the standard. -/
def isWhite (c : Char) : Bool :=
  within [(0x9, 0xD), (0x20, 0x20), (0x85, 0x85), (0xA0, 0xA0), (0x1680, 0x1680), (0x2000, 0x200A),
    (0x2028, 0x2029), (0x202F, 0x202F), (0x205F, 0x205F), (0x3000, 0x3000)] c

end ExprCheck.Unicode
