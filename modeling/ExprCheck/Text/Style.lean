/-! Styles of terminal text. A styled text starts with a control sequence that lists the attributes
of its style and ends with the one that resets them. -/
namespace ExprCheck

inductive Color where
  | red
  | green
  | yellow
  | blue
  | cyan
  | gray
  | indexed (number : Nat)
deriving DecidableEq, Repr, Inhabited

def Color.attribute : Color → String
  | red => "31"
  | green => "32"
  | yellow => "33"
  | blue => "34"
  | cyan => "36"
  | gray => "90"
  | indexed number => s!"38;5;{number}"

structure Style where
  color? : Option Color := none
  bold : Bool := false
deriving DecidableEq, Repr

namespace Style

def attributes (s : Style) : List String :=
  (if s.bold then ["1"] else []) ++ (s.color?.map Color.attribute).toList

def start (s : Style) : String :=
  "\x1b[" ++ ";".intercalate s.attributes ++ "m"

def reset : String :=
  "\x1b[0m"

/-- Styles a text, if styles are shown. A reset inside the text is followed by the style again. -/
def apply (s : Style) (shown : Bool) (text : String) : String :=
  if shown && !s.attributes.isEmpty then
    s.start ++ text.replace reset (reset ++ s.start) ++ reset
  else text

end Style

def Color.plain (c : Color) : Style :=
  { color? := some c }

def Color.bold (c : Color) : Style :=
  { color? := some c, bold := true }

end ExprCheck
