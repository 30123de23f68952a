import ExprCheck.Declaration
import ExprCheck.Lexeme.Scan
/-! Reading declarations. The form of a declaration file has no nesting, so it is read one lexeme at
a time: a state holds what has been read of the open declaration, and a lexeme that no state can
take is the fault. A state that could be the end of its declaration also takes the keyword that
starts the next one. Keywords are names everywhere else. -/
namespace ExprCheck

structure PartialPath where
  names : List String
  needsName : Bool
deriving DecidableEq, Repr

namespace PartialPath

def start : PartialPath :=
  ⟨[], true⟩

def next? (p : PartialPath) : Lexeme → Option PartialPath
  | .name text => if p.needsName then some ⟨p.names ++ [text], false⟩ else none
  | .dot => if p.needsName then none else some ⟨p.names, true⟩
  | _ => none

def done? (p : PartialPath) : Option String :=
  if p.needsName then none else some (".".intercalate p.names)

end PartialPath

inductive ParamStage where
  | named
  | typing (path : PartialPath)
  | defaulting (ty? : Option String) (negative : Bool)
  | defaulted (ty? : Option String) (value : Literal)
deriving DecidableEq, Repr

structure PartialParam where
  name : String
  stage : ParamStage
  span : Span
deriving DecidableEq, Repr

namespace ParamStage

def next? : ParamStage → Lexeme → Option ParamStage
  | named, .op ":" => some (typing .start)
  | named, .op "=" => some (defaulting none false)
  | typing path, .op "=" => path.done?.map fun ty => defaulting (some ty) false
  | typing path, l => (path.next? l).map typing
  | defaulting ty? false, .op "-" => some (defaulting ty? true)
  | defaulting ty? false, .number raw => some (defaulted ty? (.number raw))
  | defaulting ty? true, .number raw => some (defaulted ty? (.number ("-" ++ raw)))
  | defaulting ty? false, .str raw => some (defaulted ty? (.str raw))
  | defaulting ty? false, .name "True" => some (defaulted ty? (.bool true))
  | defaulting ty? false, .name "False" => some (defaulted ty? (.bool false))
  | _, _ => none

end ParamStage

namespace PartialParam

def next? (p : PartialParam) (l : Spanned Lexeme) : Option PartialParam :=
  (p.stage.next? l.value).map fun stage => ⟨p.name, stage, ⟨p.span.start, l.span.stop⟩⟩

def done? (p : PartialParam) : Option Param :=
  match p.stage with
  | .named => some ⟨p.name, none, none, p.span⟩
  | .typing path => path.done?.map fun ty => ⟨p.name, some ty, none, p.span⟩
  | .defaulting .. => none
  | .defaulted ty? value => some ⟨p.name, ty?, some value, p.span⟩

end PartialParam

/-- A parameter list that is being read; a comma may stand before its end. -/
structure PartialParams where
  finished : List Param
  current? : Option PartialParam
deriving DecidableEq, Repr

namespace PartialParams

def start : PartialParams :=
  ⟨[], none⟩

def done? (ps : PartialParams) : Option (List Param) :=
  match ps.current? with
  | none => some ps.finished
  | some p => p.done?.map fun param => ps.finished ++ [param]

def next? (ps : PartialParams) (l : Spanned Lexeme) : Option PartialParams :=
  match ps.current?, l.value with
  | none, .name text => some ⟨ps.finished, some ⟨text, .named, l.span⟩⟩
  | none, _ => none
  | some _, .comma => ps.done?.map fun finished => ⟨finished, none⟩
  | some p, _ => (p.next? l).map fun p => ⟨ps.finished, some p⟩

end PartialParams

inductive Listed where
  | function
  | struct
deriving DecidableEq, Repr

inductive Stage where
  | inModule (path : PartialPath)
  | heading (kind : Listed)
  | headed (kind : Listed) (name : String)
  | listing (kind : Listed) (name : String) (params : PartialParams)
  | signature (name : String) (params : List Param)
  | returning (name : String) (params : List Param) (path : PartialPath)
  | fields (name : String) (fields : List Param)
  | binding
  | bound (name : String)
  | typing (name : String) (path : PartialPath)
deriving DecidableEq, Repr

namespace Stage

def start? : Lexeme → Option Stage
  | .name "module" => some (inModule .start)
  | .name "fn" => some (heading .function)
  | .name "struct" => some (heading .struct)
  | .name "let" => some binding
  | _ => none

def listed (name : String) (params : List Param) : Listed → Stage
  | .function => signature name params
  | .struct => fields name params

def next? (s : Stage) (l : Spanned Lexeme) : Option Stage :=
  match s, l.value with
  | inModule path, v => (path.next? v).map inModule
  | heading kind, .name name => some (headed kind name)
  | headed kind name, .opening .paren => some (listing kind name .start)
  | listing kind name params, .closing .paren => params.done?.map fun ps => listed name ps kind
  | listing kind name params, _ => (params.next? l).map (listing kind name)
  | signature name params, .op "->" => some (returning name params .start)
  | returning name params path, v => (path.next? v).map (returning name params)
  | binding, .name name => some (bound name)
  | bound name, .op ":" => some (typing name .start)
  | typing name path, v => (path.next? v).map (typing name)
  | _, _ => none

/-- The declaration, if it could end here. -/
def done? : Stage → Option Declared
  | inModule path => path.done?.map .inModule
  | signature name params => some (.function name params none)
  | returning name params path => path.done?.map fun ty => .function name params (some ty)
  | fields name params => some (.struct name params)
  | bound name => some (.var name none)
  | typing name path => path.done?.map fun ty => .var name (some ty)
  | _ => none

end Stage

/-- The declarations read so far and the one that is being read, with its span. -/
structure Reading where
  finished : List Declaration
  current? : Option (Stage × Span)
deriving DecidableEq, Repr

namespace Reading

def start : Reading :=
  ⟨[], none⟩

def done? (r : Reading) : Option (List Declaration) :=
  match r.current? with
  | none => some r.finished
  | some (stage, span) => stage.done?.map fun d => r.finished ++ [⟨d, span⟩]

def extend? (r : Reading) (l : Spanned Lexeme) : Option Reading :=
  match r.current? with
  | none => none
  | some (stage, span) =>
      (stage.next? l).map fun stage => ⟨r.finished, some (stage, ⟨span.start, l.span.stop⟩)⟩

def begin? (r : Reading) (l : Spanned Lexeme) : Option Reading := do
  let finished ← r.done?
  let stage ← Stage.start? l.value
  return ⟨finished, some (stage, l.span)⟩

def next? (r : Reading) (l : Spanned Lexeme) : Option Reading :=
  (r.extend? l).or (r.begin? l)

end Reading

/-- Where a sequence of lexemes stops being the start of a declaration file: at a lexeme, or at
its end. -/
inductive Stuck where
  | at (lexeme : Spanned Lexeme)
  | atEnd
deriving DecidableEq, Repr

def Reading.run (r : Reading) : List (Spanned Lexeme) → Except Stuck (List Declaration)
  | [] => match r.done? with
      | some declarations => .ok declarations
      | none => .error .atEnd
  | l :: rest => match r.next? l with
      | some r => r.run rest
      | none => .error (.at l)

inductive DeclarationError where
  | lex (error : LexError)
  | unexpected (lexeme : Lexeme) (place : Place)
  | unexpectedEnd (place : Place)
deriving DecidableEq, Repr

namespace DeclarationError

def message : DeclarationError → String
  | lex error => error.message
  | unexpected lexeme _ => s!"SyntaxError: unexpected `{lexeme.display}`"
  | unexpectedEnd _ => "SyntaxError: unexpected end of input"

def place : DeclarationError → Place
  | lex error => error.place
  | unexpected _ place | unexpectedEnd place => place

def ofStuck (source : String) : Stuck → DeclarationError
  | .at l => unexpected l.value ⟨l.span, lineOf source l.span.start⟩
  | .atEnd =>
      unexpectedEnd ⟨.point source.utf8ByteSize, lineOf source source.utf8ByteSize⟩

end DeclarationError

def readDeclarations (source : String) : Except DeclarationError (List Declaration) :=
  match Lexeme.scan source with
  | .error e => .error (.lex e)
  | .ok lexemes =>
      (Reading.start.run (lexemes.filter fun l => !l.value.isTrivia)).mapError
        (.ofStuck source)

theorem mapError_eq_ok_iff {ε ε' α : Type} {m : Except ε α} {f : ε → ε'} {x : α} :
    m.mapError f = .ok x ↔ m = .ok x := by
  cases m with
  | error e => exact ⟨nofun, nofun⟩
  | ok y =>
    constructor
    · intro same
      cases same
      rfl
    · intro same
      cases same
      rfl

end ExprCheck
