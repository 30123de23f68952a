import ExprCheck.Program
import ExprCheck.Report
import ExprCheck.Report.Outline
/-! The command line: from arguments to an exit code and two texts. Options may stand anywhere after
the command and may be given once. A value follows its option as the next argument or, with an
equals sign for a long option, in the same one. Two dashes end the options. Files are read through a
function, so a run is a value that depends on nothing else. -/
namespace ExprCheck.CommandLine

inductive Command where
  | check (input : String)
  | expr (source : String) (expected? : Option String)
deriving DecidableEq, Repr

structure Request where
  command : Command
  prelude? : Option String
  effects : Bool
  noColor : Bool
deriving DecidableEq, Repr

inductive Parsed where
  | request (request : Request)
  | help
  | misuse
deriving DecidableEq, Repr

inductive CommandName where
  | check
  | expr
deriving DecidableEq, Repr

structure Collected where
  positional? : Option String := none
  prelude? : Option String := none
  expected? : Option String := none
  effects : Bool := false
  noColor : Bool := false
deriving DecidableEq, Repr

inductive ValueOption where
  | prelude
  | expect
deriving DecidableEq, Repr

/-- Sets a value that must not be set yet. -/
def Collected.setValue? (c : Collected) (value : String) : ValueOption → Option Collected
  | .prelude => if c.prelude?.isNone then some { c with prelude? := some value } else none
  | .expect => if c.expected?.isNone then some { c with expected? := some value } else none

def Collected.setPositional? (c : Collected) (value : String) : Option Collected :=
  if c.positional?.isNone then some { c with positional? := some value } else none

inductive LongOption where
  | value (option : ValueOption)
  | effects
  | noColor
  | help

def longOption? (command : CommandName) (name : String) : Option LongOption :=
  match command, name with
  | _, "prelude" => some (.value .prelude)
  | .expr, "expect" => some (.value .expect)
  | _, "effects" => some .effects
  | _, "no-color" => some .noColor
  | _, "help" => some .help
  | _, _ => none

inductive Step where
  | go (c : Collected)
  | await (c : Collected) (option : ValueOption)
  | positionals (c : Collected)
  | help
  | misuse

def Step.ofOption : Option Collected → Step
  | some c => go c
  | none => misuse

/-- Splits the rest of a long option at its first equals sign. -/
def splitEquals (text : List Char) : String × Option String :=
  match text.span (· != '=') with
  | (name, []) => (String.ofList name, none)
  | (name, _ :: value) => (String.ofList name, some (String.ofList value))

def longStep (command : CommandName) (c : Collected) (text : List Char) : Step :=
  let (name, value?) := splitEquals text
  match longOption? command name, value? with
  | some (.value option), some value => .ofOption (c.setValue? value option)
  | some (.value option), none => .await c option
  | some .effects, none => if c.effects then .misuse else .go { c with effects := true }
  | some .noColor, none => if c.noColor then .misuse else .go { c with noColor := true }
  | some .help, none => .help
  | _, _ => .misuse

/-- Reads the letters after a single dash. The value of `-p` may follow at once. -/
def shortStep (c : Collected) : List Char → Step
  | ['p'] => .await c .prelude
  | 'p' :: '=' :: value => .ofOption (c.setValue? (String.ofList value) .prelude)
  | 'p' :: value => .ofOption (c.setValue? (String.ofList value) .prelude)
  | 'h' :: _ => .help
  | _ => .misuse

/-- Reads one argument. While a value is awaited, it is the value unless it looks like an option. -/
def step (command : CommandName) (c : Collected) (awaiting? : Option ValueOption) (arg : String) :
    Step :=
  match awaiting?, arg.toList with
  | none, ['-', '-'] => .positionals c
  | none, '-' :: '-' :: text => longStep command c text
  | none, '-' :: letter :: text => shortStep c (letter :: text)
  | none, _ => .ofOption (c.setPositional? arg)
  | some _, '-' :: _ :: _ => .misuse
  | some option, _ => .ofOption (c.setValue? arg option)

/-- Completes what was collected; the command needs its argument. -/
def Collected.request? (c : Collected) (command : CommandName) : Option Request :=
  c.positional?.map fun positional =>
    { command := match command with
        | .check => .check positional
        | .expr => .expr positional c.expected?
      prelude? := c.prelude?
      effects := c.effects
      noColor := c.noColor }

def Parsed.ofOption : Option Request → Parsed
  | some r => request r
  | none => misuse

def collectPositionals (command : CommandName) (c : Collected) : List String → Parsed
  | [] => .ofOption (c.request? command)
  | arg :: rest =>
      match c.setPositional? arg with
      | some c => collectPositionals command c rest
      | none => .misuse

def collect (command : CommandName) (c : Collected) (awaiting? : Option ValueOption) :
    List String → Parsed
  | [] => if awaiting?.isSome then .misuse else .ofOption (c.request? command)
  | arg :: rest =>
      match step command c awaiting? arg with
      | .go c => collect command c none rest
      | .await c option => collect command c (some option) rest
      | .positionals c => collectPositionals command c rest
      | .help => .help
      | .misuse => .misuse

/-- Reads the arguments of `help`: at most one command, which may be `help` itself. -/
def parseHelp : List String → Parsed
  | [] | ["check"] | ["expr"] | ["help"] => .help
  | _ => .misuse

/-- Whether an argument in place of a command asks for a text about the program. -/
def isInquiry (arg : String) : Bool :=
  match arg.toList with
  | '-' :: letter :: _ => letter == 'h' || letter == 'V' || arg == "--help" || arg == "--version"
  | _ => false

def parse : List String → Parsed
  | "check" :: rest => collect .check {} none rest
  | "expr" :: rest => collect .expr {} none rest
  | "help" :: rest => parseHelp rest
  | arg :: _ => if isInquiry arg then .help else .misuse
  | [] => .misuse

/-! Running a request. -/

/-- What surrounds a run: the files, and whether texts are styled. -/
structure World where
  read : String → Except ReadFailure String
  styles : Bool

structure Result where
  code : Nat
  stdout : String := ""
  stderr : String := ""
deriving DecidableEq, Repr

def unreadable (context : String) (reason : ReadFailure) : Result :=
  { code := 1, stderr := s!"Error: {context}\n\nCaused by:\n    {reason.message}\n" }

namespace Request

def reporter (r : Request) (w : World) (source? : Option (String × String)) : Reporter :=
  ⟨source?, !r.noColor, !r.noColor && w.styles⟩

/-- The result of a failure, reported against the source that it lies in. -/
def failed (r : Request) (w : World) (failure : Failure) (source? : Option (String × String)) :
    Result :=
  { code := 1
    stderr := (r.reporter w source?).renderAll
      (failure.diagnostics (source?.map (·.1)) (source?.map (·.2))) }

def loadSymbols (r : Request) (w : World) : Except Result ScopeTable :=
  match r.prelude? with
  | none => .ok .empty
  | some path =>
      match w.read path with
      | .error reason => .error (unreadable s!"无法读取声明文件 {path}" reason)
      | .ok source => (readPrelude source).mapError fun f => r.failed w f (some (path, source))

/-- One line about a file that has no error. -/
def passedText (styled : Bool) (input : String) (total warnings : Nat) : String :=
  Color.green.bold.apply styled "✔" ++ s!" {input}: {total} 个表达式, {warnings} 个警告\n"

/-- One line about a file that has errors, and how many of its expressions have a type. -/
def failedText (styled : Bool) (input : String) (passed total errors warnings : Nat) : String :=
  Color.red.bold.apply styled "✘"
    ++ s!" {input}: {passed}/{total} 个表达式通过, {errors} 个错误, {warnings} 个警告\n"

/-- How many expressions a file has, and what was found in them. -/
def summary (w : World) (input : String) (o : Outcome) : String :=
  let errors := (o.log.diagnostics input).errorCount
  let warnings := (o.log.diagnostics input).warningCount
  if errors = 0 then passedText w.styles input o.lines.length warnings
  else failedText w.styles input o.exprs.length o.lines.length errors warnings

def finished (r : Request) (w : World) (path source : String) (log : Log) (shownPath : String)
    (stdout : String) : Result :=
  { code := if log.any Finding.isError then 1 else 0
    stdout
    stderr := (r.reporter w (some (path, source))).renderAll (log.diagnostics shownPath) }

def runCheck (r : Request) (w : World) (table : ScopeTable) (input : String) : Result :=
  match w.read input with
  | .error reason => unreadable s!"无法读取 {input}" reason
  | .ok source =>
      match (Analyzer.mk table.lookup? r.effects).analyzeLines source with
      | .error e => r.failed w (.lexical e) (some (input, source))
      | .ok o => r.finished w input source o.log input (summary w input o)

def exprPath : String := "<expr>"

def runExpr (r : Request) (w : World) (table : ScopeTable) (source : String)
    (expected? : Option String) : Result :=
  match expected?.mapM (typeNamed table.lookup?) with
  | .error f => r.failed w f none
  | .ok expected? =>
      match (Analyzer.mk table.lookup? r.effects).analyzeText expected? source with
      | .error e => r.failed w (.lexical e) (some (exprPath, source))
      | .ok o =>
          r.finished w exprPath source o.log ""
            (String.join (o.exprs.map fun e => e.outline w.styles 0))

def run (r : Request) (w : World) : Result :=
  match r.loadSymbols w with
  | .error result => result
  | .ok table =>
      match r.command with
      | .check input => r.runCheck w table input
      | .expr source expected? => r.runExpr w table source expected?

end Request

def usage : String :=
  "Usage:\n"
    ++ "  check <INPUT> [-p|--prelude <PRELUDE>] [--effects] [--no-color]\n"
    ++ "  expr <EXPRESSION> [--expect <TYPE>] [-p|--prelude <PRELUDE>] [--effects] [--no-color]\n"

/-- Runs the program on its arguments. A misuse has the exit code 2. -/
def execute (w : World) (args : List String) : Result :=
  match parse args with
  | .request r => r.run w
  | .help => { code := 0, stdout := usage }
  | .misuse => { code := 2, stderr := usage }

end ExprCheck.CommandLine
