import ExprCheck.Lexeme
/-! Reading lexemes from a text. At each position the longest lexeme is taken. Spaces, tabs,
carriage returns and form feeds separate lexemes and are dropped. A string that is not closed on its
line is a fault as a whole, also when the letter before its quote could stand alone as a name. Every
recogniser takes what follows the first character of a lexeme and answers how many further
characters belong to the lexeme, so a lexeme is never empty and the scan ends. -/
namespace ExprCheck.Lexeme

def isBlank (c : Char) : Bool :=
  c == ' ' || c == '\t' || c == '\r' || c == '\x0c'

def isWordStart (c : Char) : Bool :=
  c.isAlpha || c == '_'

def isWord (c : Char) : Bool :=
  c.isAlphanum || c == '_'

/-- A digit or the underscore that may separate digits. -/
def isDigitPart (c : Char) : Bool :=
  c.isDigit || c == '_'

def isHexDigit (c : Char) : Bool :=
  c.isDigit || ('a' ≤ c && c ≤ 'f') || ('A' ≤ c && c ≤ 'F')

def isHexPart (c : Char) : Bool :=
  isHexDigit c || c == '_'

def runLength (p : Char → Bool) (cs : List Char) : Nat :=
  (cs.takeWhile p).length

/-- The length of a fraction: a point and a digit, then digits and underscores. -/
def fractionLength : List Char → Nat
  | '.' :: d :: rest => if d.isDigit then runLength isDigitPart rest + 2 else 0
  | _ => 0

def signLength : List Char → Nat
  | s :: _ => if s == '+' || s == '-' then 1 else 0
  | [] => 0

/-- The length of an exponent: the letter, an optional sign and at least one digit. -/
def exponentLength : List Char → Nat
  | e :: rest =>
      if e == 'e' || e == 'E' then
        let sign := signLength rest
        let digits := runLength Char.isDigit (rest.drop sign)
        if digits = 0 then 0 else digits + sign + 1
      else 0
  | [] => 0

/-- The length of a type suffix: the letter of the family and one of its widths. -/
def suffixLength : List Char → Nat
  | 'i' :: '8' :: _ | 'u' :: '8' :: _ => 2
  | 'i' :: '1' :: '6' :: _ | 'i' :: '3' :: '2' :: _ | 'i' :: '6' :: '4' :: _
  | 'u' :: '1' :: '6' :: _ | 'u' :: '3' :: '2' :: _ | 'u' :: '6' :: '4' :: _
  | 'f' :: '3' :: '2' :: _ | 'f' :: '6' :: '4' :: _ => 3
  | _ => 0

def decimalLength (cs : List Char) : Nat :=
  let whole := runLength isDigitPart cs
  let fraction := fractionLength (cs.drop whole)
  let exponent := exponentLength (cs.drop (whole + fraction))
  let suffix := suffixLength (cs.drop (whole + fraction + exponent))
  whole + fraction + exponent + suffix

/-- How much of a number follows its first digit; a hexadecimal number has no suffix. -/
def numberLength (first : Char) (cs : List Char) : Nat :=
  match cs with
  | x :: d :: rest =>
      if first == '0' && (x == 'x' || x == 'X') && isHexDigit d then runLength isHexPart rest + 2
      else decimalLength cs
  | _ => decimalLength cs

/-- What follows an opening quote: the closed rest of a string, or the part before it breaks off. -/
inductive Quoted where
  | closed (length : Nat)
  | broken (length : Nat)
deriving DecidableEq, Repr

def Quoted.after (n : Nat) : Quoted → Quoted
  | closed length => closed (length + n)
  | broken length => broken (length + n)

/-- Reads string pieces up to the closing quote. A backslash takes the next character with it,
and neither a line feed nor the end of the text may follow it. -/
def quoted (quote : Char) : List Char → Quoted
  | [] => .broken 0
  | '\\' :: c :: rest => if c = '\n' then .broken 0 else (quoted quote rest).after 2
  | ['\\'] => .broken 0
  | c :: rest =>
      if c = quote then .closed 1
      else if c = '\n' then .broken 0
      else (quoted quote rest).after 1

def isQuote (c : Char) : Bool :=
  c == '\x27' || c == '\x22'

/-- The string that starts here, if one does: after at most one letter, a quote. -/
def quotedFrom (first : Char) (cs : List Char) : Option Quoted :=
  if isQuote first then some (quoted first cs)
  else
    match cs with
    | q :: rest =>
        if first.isAlpha && isQuote q then some ((quoted q rest).after 1) else none
    | [] => none

def isDoubleOp (first second : Char) : Bool :=
  match first, second with
  | '*', '*' | '/', '/' | '=', '=' | '!', '=' | '<', '=' | '>', '=' | '<', '<' | '>', '>'
  | '&', '&' | '|', '|' | '-', '>' => true
  | _, _ => false

def isSingleOp (c : Char) : Bool :=
  "-+*/%<>=!~&|^:".toList.contains c

def punctuation? : Char → Option Lexeme
  | '.' => some dot
  | ',' => some comma
  | '(' => some (opening .paren)
  | ')' => some (closing .paren)
  | '[' => some (opening .square)
  | ']' => some (closing .square)
  | '{' => some (opening .brace)
  | '}' => some (closing .brace)
  | '\n' => some newline
  | _ => none

inductive Start where
  /-- A lexeme made from its text, with the number of characters after the first. -/
  | lexeme (make : String → Lexeme) (more : Nat)
  /-- No lexeme; the fault covers this many characters after the first. -/
  | fault (more : Nat)

/-- Decides by the first character which lexeme is the longest here. -/
def start (first : Char) (cs : List Char) : Start :=
  match quotedFrom first cs with
  | some (.closed more) => .lexeme str more
  | some (.broken more) => .fault more
  | none =>
      if first.isDigit then .lexeme number (numberLength first cs)
      else if isWordStart first then .lexeme name (runLength isWord cs)
      else if first = '#' then .lexeme comment (runLength (· != '\n') cs)
      else
        match punctuation? first with
        | some l => .lexeme (fun _ => l) 0
        | none =>
            match cs.head? with
            | some second =>
                if isDoubleOp first second then .lexeme op 1
                else if isSingleOp first then .lexeme op 0
                else .fault 0
            | none => if isSingleOp first then .lexeme op 0 else .fault 0

/-- Reads the lexemes of what is left of a source from a byte offset and a line on. -/
def scanFrom (offset line : Nat) : List Char → Except LexError (List (Spanned Lexeme))
  | [] => .ok []
  | first :: cs =>
      if isBlank first then scanFrom (offset + first.utf8Size) line cs
      else
        match start first cs with
        | .lexeme make more =>
            let text := first :: cs.take more
            let stop := offset + byteLength text
            let lexeme := make (String.ofList text)
            let line := if lexeme = newline then line + 1 else line
            match scanFrom stop line (cs.drop more) with
            | .ok rest => .ok (⟨lexeme, ⟨offset, stop⟩⟩ :: rest)
            | .error e => .error e
        | .fault more =>
            let text := first :: cs.take more
            .error ⟨.invalidCharacter (String.ofList text),
              ⟨offset, offset + byteLength text⟩, line⟩
termination_by cs => cs.length
decreasing_by
  · exact Nat.lt_succ_self _
  · exact Nat.lt_succ_of_le (List.drop_sublist more cs).length_le

def scan (source : String) : Except LexError (List (Spanned Lexeme)) :=
  scanFrom 0 1 source.toList

end ExprCheck.Lexeme
