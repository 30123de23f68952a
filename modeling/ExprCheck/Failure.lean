import ExprCheck.Declaration.Reader
import ExprCheck.Fault
/-! What stops the program before it can analyse expressions. A failure may hold several faults, one
diagnostic each. Faults of expressions are no failures; they are part of an analysis. -/
namespace ExprCheck

inductive ReadFailure where
  | notFound
  | notText
  | other (reason : String)
deriving DecidableEq, Repr

def ReadFailure.message : ReadFailure → String
  | notFound => "No such file or directory (os error 2)"
  | notText => "stream did not contain valid UTF-8"
  | other reason => reason

inductive Failure where
  | lexical (error : LexError)
  | declarations (errors : List DeclarationError)
  | semantics (faults : List SpannedFault)
  | unreadable (reason : ReadFailure)
deriving DecidableEq, Repr

def numberedLines (messages : List String) : String :=
  "\n".intercalate <| messages.zipIdx.map fun (message, i) => s!"  {i + 1}. {message}"

namespace Failure

def message : Failure → String
  | lexical error => "Lexical error: " ++ error.message
  | declarations errors => "Parse errors:\n" ++ numberedLines (errors.map (·.message))
  | semantics faults => "Semantic errors:\n" ++ numberedLines (faults.map (·.fault.message))
  | unreadable reason => "IO error: " ++ reason.message

def located (message : String) (place : Place) : Diagnostic :=
  { level := .error, message, span? := some place.span, line? := some place.line }

def bareDiagnostics : Failure → Diagnostics
  | lexical error => [located error.message error.place]
  | declarations errors => errors.map fun e => located e.message e.place
  | semantics faults => faults.map SpannedFault.diagnostic
  | unreadable reason => [{ level := .error, message := (unreadable reason).message }]

/-- One diagnostic for each fault, with the file and the line as far as a path and a source are
given. -/
def diagnostics (f : Failure) (path? source? : Option String) : Diagnostics :=
  f.bareDiagnostics.map fun d => (d.withLine source?).withFile path?

end Failure

end ExprCheck
