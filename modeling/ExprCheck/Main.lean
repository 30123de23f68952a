import ExprCheck.CommandLine
/-! The program: reads the files that a request names, runs it and prints what it leaves behind. -/
namespace ExprCheck.CommandLine

def readText (path : String) : IO (Except ReadFailure String) := do
  try
    return decodeText (← IO.FS.readBinFile path)
  catch
    | .noFileOrDirectory .. => return .error .notFound
    | e => return .error (.other (toString e))

def neededFiles : Parsed → List String
  | .request r =>
      r.prelude?.toList ++ match r.command with
        | .check input => [input]
        | .expr .. => []
  | _ => []

/-- Styles are shown on a terminal, and elsewhere only if the environment asks for them. -/
def stylesWanted : IO Bool := do
  let forced ← IO.getEnv "CLICOLOR_FORCE"
  if forced.any (· != "0") then return true
  if (← IO.getEnv "NO_COLOR").isSome then return false
  let allowed ← IO.getEnv "CLICOLOR"
  return allowed.all (· != "0") && (← (← IO.getStdout).isTty)

end ExprCheck.CommandLine

open ExprCheck.CommandLine in
def main (args : List String) : IO UInt32 := do
  let contents ← (neededFiles (parse args)).mapM fun path => return (path, ← readText path)
  let world : World :=
    { read := fun path => (contents.lookup path).getD (.error .notFound)
      styles := ← stylesWanted }
  let result := execute world args
  IO.print result.stdout
  IO.eprint result.stderr
  return result.code.toUInt32
