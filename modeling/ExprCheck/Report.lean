import ExprCheck.Report.Plain
import ExprCheck.Report.Snippet
/-! Choosing how a diagnostic is reported: with the source, if there is one and the diagnostic has a
span, else as lines of text. -/
namespace ExprCheck

structure Reporter where
  /-- The path and the text of the source that spans refer to. -/
  source? : Option (String × String)
  snippetColors : Bool
  textStyles : Bool
deriving DecidableEq, Repr

namespace Reporter

def render (r : Reporter) (d : Diagnostic) : String :=
  match r.source?, d.span? with
  | some (path, source), some span => Snippet.render r.snippetColors path source d span
  | _, _ => d.plainText r.textStyles

def renderAll (r : Reporter) (ds : Diagnostics) : String :=
  String.join (ds.map fun d => r.render d ++ "\n")

end Reporter

end ExprCheck
