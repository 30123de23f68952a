import ExprCheck.Source
/-! Diagnostics: messages for the user, with where they belong. Only the level of a diagnostic has a
meaning to the program; all else is for the reports. -/
namespace ExprCheck

inductive Severity where
  | error
  | warning
  | note
deriving DecidableEq, Repr, Inhabited

def Severity.name : Severity → String
  | error => "error"
  | warning => "warning"
  | note => "note"

structure Diagnostic where
  level : Severity
  message : String
  file? : Option String := none
  span? : Option Span := none
  line? : Option Nat := none
  notes : List String := []
  help : List String := []
deriving DecidableEq, Repr, Inhabited

namespace Diagnostic

def isError (d : Diagnostic) : Bool :=
  d.level == .error

def location? (d : Diagnostic) : Option String :=
  match d.file?, d.line? with
  | some file, some line => some s!"{file}:{line}"
  | some file, none => some file
  | none, some line => some s!"<input>:{line}"
  | none, none => none

def withFile (d : Diagnostic) : Option String → Diagnostic
  | some path => { d with file? := some path }
  | none => d

/-- Adds the line on which the span starts, if a source is given and no line is known. -/
def withLine (d : Diagnostic) (source? : Option String) : Diagnostic :=
  match source?, d.span?, d.line? with
  | some source, some span, none => { d with line? := some (lineOf source span.start) }
  | _, _, _ => d

def display (d : Diagnostic) : String :=
  s!"{d.level.name}: {d.message}"

end Diagnostic

abbrev Diagnostics := List Diagnostic

namespace Diagnostics

def errors (ds : Diagnostics) : List Diagnostic :=
  ds.filter Diagnostic.isError

def errorCount (ds : Diagnostics) : Nat :=
  ds.errors.length

def hasErrors (ds : Diagnostics) : Bool :=
  ds.any Diagnostic.isError

def warningCount (ds : Diagnostics) : Nat :=
  (ds.filter fun d => d.level == .warning).length

end Diagnostics

end ExprCheck
