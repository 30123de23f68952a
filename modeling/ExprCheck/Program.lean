import ExprCheck.Failure
import ExprCheck.Prelude
import ExprCheck.Analyzer
import ExprCheck.Token.Group
/-! Analysing whole texts. A prelude gives the symbols. A source is a sequence of lines, each an
expression of its own; a fault in one line leaves the others alone. A single expression may also be
spread over lines. -/
namespace ExprCheck

def readPrelude (source : String) : Except Failure ScopeTable :=
  match readDeclarations source with
  | .error e => .error (.declarations [e])
  | .ok ds => (ScopeTable.ofDeclarations ds).mapError .semantics

def readPreludeFile (content : Except ReadFailure String) : Except Failure ScopeTable :=
  match content with
  | .error reason => .error (.unreadable reason)
  | .ok source => readPrelude source

def decodeText (bytes : ByteArray) : Except ReadFailure String :=
  match String.fromUTF8? bytes with
  | some text => .ok text
  | none => .error .notText

/-- The type of a name: a built-in type, else a structure of the table. -/
def typeNamed (lookup : Lookup) (name : String) : Except Failure Ty :=
  match Ty.ofName? name with
  | some ty => .ok ty
  | none =>
      match lookup name with
      | some (.struct _ qualified _ _) => .ok (.named qualified)
      | some _ => .error (.semantics [⟨.notAType name, .point 0⟩])
      | none => .error (.semantics [⟨.unknownType name, .point 0⟩])

/-- The outcome for one line; a line without an expression has a fault in the log. -/
structure LineResult where
  line : Nat
  span : Span
  expr? : Option Expr
deriving Repr

structure Outcome where
  lines : List LineResult
  log : Log
deriving Repr

namespace Outcome

def exprs (o : Outcome) : List Expr :=
  o.lines.filterMap LineResult.expr?

def hasErrors (o : Outcome) : Bool :=
  o.log.any Finding.isError

end Outcome

def runSpan (run : List Token) : Span :=
  match firstPlace? run, lastPlace? run with
  | some first, some last => ⟨first.span.start, last.span.stop⟩
  | _, _ => .point 0

def lineResult (run : List Token) (expr? : Option Expr) : LineResult :=
  ⟨((firstPlace? run).map Place.line).getD 1, runSpan run, expr?⟩

namespace Analyzer

def analyzeRuns (a : Analyzer) : List (List Token) → Log → List LineResult × Log
  | [], log => ([], log)
  | run :: rest, log =>
      let (expr?, log) := a.analyze none run log
      let (lines, log) := a.analyzeRuns rest log
      (lineResult run expr? :: lines, log)

def analyzeLines (a : Analyzer) (source : String) : Except LexError Outcome := do
  let (lines, log) := a.analyzeRuns (tokenLines (← tokenize source)) []
  return ⟨lines, log⟩

/-- Analyses a source as one expression; its line ends mean nothing. -/
def analyzeText (a : Analyzer) (expected? : Option Ty) (source : String) :
    Except LexError Outcome := do
  let run := (← tokenize source).filter fun t => !t.endsLine
  let (expr?, log) := a.analyze expected? run []
  return ⟨[lineResult run expr?], log⟩

end Analyzer

end ExprCheck
