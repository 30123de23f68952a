import ExprCheck.Bracket
import ExprCheck.Source
/-! Tokens: lexemes with their brackets matched. A group holds its content, and commas at one level
turn that level into a single tuple, so an analysis of expressions never sees a bracket or a comma.
A trailing comma leaves an empty last item. -/
namespace ExprCheck

inductive Leaf where
  | str (text : String)
  | number (text : String)
  | name (text : String)
  | op (text : String)
  | dot
  | comment (text : String)
  | newline
  | endMarker
deriving DecidableEq, Repr, Inhabited

inductive Token where
  | leaf (leaf : Leaf) (place : Place)
  | tuple (items : List (List Token)) (place : Place)
  | group (bracket : Bracket) (inner : List Token) (place : Place)
deriving Repr, Inhabited

/-- How a leaf is written; a line feed shows as its escape and the end as nothing. -/
def Leaf.display : Leaf → String
  | str text | number text | name text | op text | comment text => text
  | dot => "."
  | newline => "\\n"
  | endMarker => ""

namespace Token

def place : Token → Place
  | leaf _ place | tuple _ place | group _ _ place => place

def name? : Token → Option String
  | leaf (.name text) _ => some text
  | _ => none

def op? : Token → Option String
  | leaf (.op text) _ => some text
  | _ => none

def group? : Token → Option (Bracket × List Token)
  | group bracket inner _ => some (bracket, inner)
  | _ => none

def isParenGroup : Token → Bool
  | group .paren _ _ => true
  | _ => false

def isComposite : Token → Bool
  | tuple .. | group .. => true
  | leaf .. => false

/-- Line feeds and the end marker bound the lines of a source. -/
def endsLine : Token → Bool
  | leaf .newline _ | leaf .endMarker _ => true
  | _ => false

mutual

def display : Token → String
  | leaf l _ => l.display
  | tuple items _ => displayItems items
  | group bracket inner _ =>
      bracket.opening.toString ++ displayRun inner ++ bracket.closing.toString

def displayRun : List Token → String
  | [] => ""
  | [t] => display t
  | t :: rest => display t ++ " " ++ displayRun rest

def displayItems : List (List Token) → String
  | [] => ""
  | [item] => displayRun item
  | item :: rest => displayRun item ++ ", " ++ displayItems rest

end

end Token

def firstPlace? (run : List Token) : Option Place :=
  run.head?.map Token.place

def lastPlace? (run : List Token) : Option Place :=
  run.getLast?.map Token.place

/-- Splits a list at the first element of a class: what stands before it, the element, and what
stands after it. -/
def splitAtFirst {α : Type} (p : α → Bool) : List α → Option (List α × α × List α)
  | [] => none
  | x :: rest =>
      if p x then some ([], x, rest)
      else
        match splitAtFirst p rest with
        | some (before, y, after) => some (x :: before, y, after)
        | none => none

theorem of_splitAtFirst_eq_some {α : Type} {p : α → Bool} {xs before after : List α} {x : α}
    (h : splitAtFirst p xs = some (before, x, after)) :
    xs = before ++ x :: after ∧ p x = true ∧ ∀ y ∈ before, p y = false := by
  fun_induction splitAtFirst p xs generalizing before with
  | case1 => simp at h
  | case2 y ys hy =>
    cases h
    simpa using hy
  | case3 y ys hy b z a hs ih =>
    cases h
    obtain ⟨rfl, hx, hb⟩ := ih hs
    simpa [hx] using ⟨by simpa using hy, hb⟩
  | case4 => simp at h

/-- The lines of a source that hold a token, without their ends. -/
def tokenLines (tokens : List Token) : List (List Token) :=
  let step (t : Token) : List Token × List (List Token) → List Token × List (List Token)
    | (line, rest) =>
        if t.endsLine then ([], if line.isEmpty then rest else line :: rest)
        else (t :: line, rest)
  let (line, rest) := tokens.foldr step ([], [])
  if line.isEmpty then rest else line :: rest

end ExprCheck
