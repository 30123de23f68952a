import ExprCheck.Fault
/-! What an analysis finds, and analyses as steps that append to a log. A step may give up; what it
has logged stays logged. The log is never read back except to see whether a part of an analysis has
added an error to it. -/
namespace ExprCheck

inductive Concern where
  | fault (fault : Fault)
  /-- The result type of an expression cannot be known. -/
  | undetermined
deriving DecidableEq, Repr

structure Finding where
  concern : Concern
  place? : Option Place
deriving DecidableEq, Repr

namespace Finding

def isError (f : Finding) : Bool :=
  match f.concern with
  | .fault _ => true
  | .undetermined => false

/-- The diagnostic for a file; an empty path names no file. -/
def diagnostic (path : String) (f : Finding) : Diagnostic :=
  { level := if f.isError then .error else .warning
    message := match f.concern with
      | .fault fault => fault.message
      | .undetermined => "return type cannot be determined"
    file? := if path.isEmpty then none else some path
    span? := f.place?.map Place.span
    line? := f.place?.map Place.line }

end Finding

abbrev Log := List Finding

namespace Log

def errorCount (log : Log) : Nat :=
  log.countP Finding.isError

def diagnostics (path : String) (log : Log) : Diagnostics :=
  log.map (Finding.diagnostic path)

end Log

/-- A step of an analysis: from the log before it to a result, if it does not give up, and the log
after it. -/
def Analysis (α : Type) : Type :=
  Log → Option α × Log

namespace Analysis

variable {α β : Type}

protected def pure (a : α) : Analysis α :=
  fun log => (some a, log)

/-- Goes on with the result; giving up ends the whole. -/
protected def bind (m : Analysis α) (f : α → Analysis β) : Analysis β :=
  fun log =>
    match m log with
    | (some a, log) => f a log
    | (none, log) => (none, log)

instance : Monad Analysis where
  pure := Analysis.pure
  bind := Analysis.bind

def note (concern : Concern) (place? : Option Place) : Analysis Unit :=
  fun log => (some (), log ++ [⟨concern, place?⟩])

def fail (fault : Fault) (place? : Option Place) : Analysis α :=
  fun log => (none, log ++ [⟨.fault fault, place?⟩])

/-- Gives up after a part that has logged an error, even if the part itself went on. -/
def whole (m : Analysis α) : Analysis α :=
  fun log =>
    match m log with
    | (some a, after) => (if log.errorCount < after.errorCount then none else some a, after)
    | (none, after) => (none, after)

end Analysis

end ExprCheck
