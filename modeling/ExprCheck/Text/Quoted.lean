import ExprCheck.Text.Unicode.Visible
/-! Quoted text, as literals are shown. Inside the quotes stand a backslash before a quote or a
backslash, a letter for the common controls, and the code point in hexadecimal digits for any other
character that cannot be seen on its own. -/
namespace ExprCheck.Quoted

def codePoint (c : Char) : String :=
  "\\u\x7b" ++ String.ofList (Nat.toDigits 16 c.toNat) ++ "\x7d"

def encodeChar (c : Char) : String :=
  if c = '\x00' then "\\0"
  else if c = '\t' then "\\t"
  else if c = '\r' then "\\r"
  else if c = '\n' then "\\n"
  else if c = '\x22' then "\\\x22"
  else if c = '\\' then "\\\\"
  else if Unicode.isVisible c then c.toString
  else codePoint c

def encode (text : String) : String :=
  "\x22" ++ String.join (text.toList.map encodeChar) ++ "\x22"

end ExprCheck.Quoted
