import ExprCheck.Diagnostic
import ExprCheck.Text.Style
import ExprCheck.Text.Unicode.Columns
/-! Diagnostics with the source lines that they point at. The two ends of a label are taken as
counts of characters. A label on one line is underlined and its word hangs below the middle of it; a
label over several lines is drawn as a bracket beside its first and its last line, with a gap for
the lines between them. A label that starts or ends beyond the last character is not drawn, and only
the headline remains. -/
namespace ExprCheck.Snippet

structure Piece where
  color? : Option Color
  text : String
deriving DecidableEq, Repr

abbrev Row := List Piece

def Row.render (colors : Bool) (row : Row) : String :=
  String.join (row.map fun p => ({ color? := p.color? } : Style).apply colors p.text) ++ "\n"

/-- A label on a source: the characters from `start` to before `stop`. -/
structure Label where
  start : Nat
  stop : Nat
  color : Color
  word : String
deriving DecidableEq, Repr

namespace Label

def covers (l : Label) (offset : Nat) : Bool :=
  l.start ≤ offset && offset < l.stop

/-- The last character of the label, or its start if it is empty. -/
def last (l : Label) : Nat :=
  max (l.stop - 1) l.start

def piece (l : Label) (text : String) : Piece :=
  ⟨some l.color, text⟩

end Label

def plain (text : String) : Piece :=
  ⟨none, text⟩

def spaces (n : Nat) : String :=
  String.ofList (List.replicate n ' ')

/-! The lines of a source. -/

/-- Characters that end a line; a carriage return and a line feed end one line together. -/
def isLineEnd (c : Char) : Bool :=
  c == '\n' || c == '\r' || c == '\x0b' || c == '\x0c' || c == '\u0085' || c == '\u2028'
    || c == '\u2029'

/-- Splits a source after each line end. No line is empty. -/
def lineTexts : List Char → List (List Char)
  | [] => []
  | '\r' :: '\n' :: rest => ['\r', '\n'] :: lineTexts rest
  | c :: rest =>
      if isLineEnd c then [c] :: lineTexts rest
      else
        match lineTexts rest with
        | [] => [[c]]
        | line :: lines => (c :: line) :: lines

/-- A line with its number, counted from 0, and the offset of its first character. -/
structure SourceLine where
  index : Nat
  offset : Nat
  text : List Char
deriving DecidableEq, Repr

namespace SourceLine

def stop (l : SourceLine) : Nat :=
  l.offset + l.text.length

def contains (l : SourceLine) (offset : Nat) : Bool :=
  l.offset ≤ offset && offset < l.stop

/-- The characters that are shown: white space at the end is left out. -/
def visible (l : SourceLine) : List Char :=
  (l.text.reverse.dropWhile Unicode.isWhite).reverse

end SourceLine

def numberLines (index offset : Nat) : List (List Char) → List SourceLine
  | [] => []
  | text :: rest => ⟨index, offset, text⟩ :: numberLines (index + 1) (offset + text.length) rest

def sourceLines (source : String) : List SourceLine :=
  numberLines 0 0 (lineTexts source.toList)

/-- The line of an offset. The offset after the last character is on the last line. -/
def locate? : List SourceLine → Nat → Option SourceLine
  | [], _ => none
  | [l], offset => if offset ≤ l.stop then some l else none
  | l :: rest, offset => if offset < l.stop then some l else locate? rest offset

/-! Colors that do not depend on the label. -/

def marginColor : Color := .indexed 246
def skippedColor : Color := .indexed 240
def unimportantColor : Color := .indexed 249
def noteColor : Color := .indexed 115

def numberedMargin (width : Nat) (l : SourceLine) : Row :=
  let number := toString (l.index + 1)
  [plain " ", ⟨some marginColor, spaces (width - number.length) ++ number ++ " │"⟩, plain " "]

def bareMargin (width : Nat) (bar : String) : Row :=
  [plain " ", ⟨some skippedColor, spaces (width + 1) ++ bar⟩, plain " "]

/-! Characters and what stands below them. -/

/-- The number of columns of a character in a column; tabs reach to a multiple of 4. -/
def columnsAt (column : Nat) (c : Char) : Nat :=
  if c = '\t' then 4 - column % 4
  else if Unicode.isWhite c then 1
  else Unicode.columns c

/-- A source line in the color of the label where it covers the line. -/
def lineRow (label : Label) (l : SourceLine) : Row :=
  (l.visible.zipIdx.map fun (c, column) =>
    let color := if label.covers (l.offset + column) then label.color else unimportantColor
    if Unicode.isWhite c then List.replicate (columnsAt column c) ⟨some color, " "⟩
    else [⟨some color, c.toString⟩]).flatten

/-- A row below a source line: for each column what stands at its start and what fills it up. -/
def belowRow (l : SourceLine) (length : Nat) (cell : Nat → Piece × Piece) : Row :=
  ((List.range length).map fun column =>
    let width := match l.visible[column]? with
      | some c => columnsAt column c
      | none => 1
    match width with
    | 0 => []
    | more + 1 => (cell column).1 :: List.replicate more (cell column).2).flatten

def inlineRows (width : Nat) (label : Label) (l : SourceLine) : List Row :=
  if l.offset ≤ label.start ∧ label.stop ≤ l.stop then
    let anchor := max ((label.start + label.stop) / 2) label.start - l.offset
    let length := label.stop - l.offset + 2
    let underline (column : Nat) : Piece × Piece :=
      if label.covers (l.offset + column) then
        (label.piece (if column = anchor then "┬" else "─"), label.piece "─")
      else if column = anchor then (label.piece "│", label.piece " ")
      else (plain " ", plain " ")
    let arrow (column : Nat) : Piece × Piece :=
      if column = anchor then (label.piece "╰", label.piece "─")
      else if anchor < column then (label.piece "─", label.piece "─")
      else (plain " ", plain " ")
    [numberedMargin width l ++ lineRow label l,
      bareMargin width "│" ++ belowRow l length underline,
      bareMargin width "│" ++ belowRow l length arrow ++ [plain (" " ++ label.word)]]
  else [bareMargin width "│"]

/-- The rows of the lines of a label that lies on several lines. `gap` says whether the gap has been
drawn already. -/
def bracketRows (width : Nat) (label : Label) (gap : Bool) : List SourceLine → List Row
  | [] => []
  | l :: rest =>
      if l.contains label.start then
        (numberedMargin width l
          ++ [label.piece "╭", label.piece "─", label.piece "▶", label.piece " "]
          ++ lineRow label l) :: bracketRows width label false rest
      else if l.contains label.last then
        let length := l.text.length + 2
        [numberedMargin width l
            ++ [label.piece "├", label.piece "─", label.piece "▶", label.piece " "]
            ++ lineRow label l,
          bareMargin width "│" ++ [label.piece "│", plain " ", plain " ", plain " "]
            ++ belowRow l length (fun _ => (plain " ", plain " ")),
          bareMargin width "│"
            ++ [label.piece "╰", label.piece "─", label.piece "─", label.piece "─"]
            ++ belowRow l length (fun _ => (label.piece "─", label.piece "─"))
            ++ [plain (" " ++ label.word)]] ++ bracketRows width label false rest
      else if gap then bracketRows width label true rest
      else
        (bareMargin width "┆" ++ [label.piece "┆", plain " ", plain " ", plain " "])
          :: bracketRows width label true rest

/-- The space that a bracket takes in the rows below the source. The bracket is drawn there only
if the label starts right after the first line. -/
def footGutter (label : Label) (multi : Bool) (lines : List SourceLine) : Row :=
  if !multi then []
  else
    match lines with
    | l :: _ =>
        if label.start = l.stop then [label.piece "│", plain " ", plain " ", plain " "]
        else [plain " ", plain " ", plain " ", plain " "]
    | [] => []

def footRows (width : Nat) (gutter : Row) (title text : String) : List Row :=
  [bareMargin width "│" ++ gutter,
    bareMargin width "│" ++ gutter ++ [⟨some noteColor, title⟩, plain (": " ++ text)]]

def bodyRows (path : String) (lines : List SourceLine) (label : Label)
    (first last : SourceLine) (remarks : List (String × String)) : List Row :=
  let width := (toString (last.index + 1)).length
  let multi := first.index != last.index
  let margin (text : String) : Piece := ⟨some marginColor, text⟩
  let location := s!"{path}:{first.index + 1}:{label.start - first.offset + 1}"
  let shown := lines.filter fun l => first.index ≤ l.index && l.index ≤ last.index
  [[plain (spaces (width + 2)), margin "╭", margin "─", margin "[", plain location, margin "]"],
    [plain (spaces (width + 2)), margin "│"]]
  ++ (if multi then bracketRows width label false shown else inlineRows width label first)
  ++ (remarks.map fun (title, text) =>
      footRows width (footGutter label multi lines) title text).flatten
  ++ [[margin (String.ofList (List.replicate (width + 2) '─') ++ "╯")]]

def headline : Severity → String × Color
  | .error => ("Error:", .red)
  | .warning => ("Warning:", .yellow)
  | .note => ("Advice:", .indexed 147)

def labelColor : Severity → Color
  | .error => .red
  | .warning => .yellow
  | .note => .cyan

/-- The label of a span. A span that reaches beyond the last byte is cut there. -/
def labelOf (source : String) (d : Diagnostic) (span : Span) : Label :=
  let stop := min span.stop source.utf8ByteSize
  ⟨min span.start stop, stop, labelColor d.level, d.level.name⟩

def headRow (d : Diagnostic) : Row :=
  [⟨some (headline d.level).2, (headline d.level).1⟩, plain (" " ++ d.message)]

/-- Of several notes the last is shown, and so it is with help. -/
def remarks (d : Diagnostic) : List (String × String) :=
  (d.help.getLast?.map ("Help", ·)).toList ++ (d.notes.getLast?.map ("Note", ·)).toList

/-- The rows of the report of a diagnostic on a span of a source. -/
def rows (path source : String) (d : Diagnostic) (span : Span) : List Row :=
  let label := labelOf source d span
  let lines := sourceLines source
  headRow d ::
    match locate? lines label.start, locate? lines label.last with
    | some first, some last => bodyRows path lines label first last (remarks d)
    | _, _ => []

def render (colors : Bool) (path source : String) (d : Diagnostic) (span : Span) : String :=
  String.join ((rows path source d span).map (Row.render colors))

end ExprCheck.Snippet
