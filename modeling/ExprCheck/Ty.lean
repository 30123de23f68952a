/-! Types of expressions, and the result types that an expression records. A result type is a type,
a reference to what the expression itself says (`own`), or unknown. An unknown result is never an
error. -/
namespace ExprCheck

inductive IntType where
  | i8 | i16 | i32 | i64 | u8 | u16 | u32 | u64
deriving DecidableEq, Repr, Inhabited

namespace IntType

/-- All integer types, in the order in which a name is looked for. -/
def all : List IntType :=
  [i8, i16, i32, i64, u8, u16, u32, u64]

def name : IntType → String
  | i8 => "i8"
  | i16 => "i16"
  | i32 => "i32"
  | i64 => "i64"
  | u8 => "u8"
  | u16 => "u16"
  | u32 => "u32"
  | u64 => "u64"

def ofName? (text : String) : Option IntType :=
  all.find? fun ty => ty.name = text

end IntType

inductive FloatType where
  | f32 | f64
deriving DecidableEq, Repr, Inhabited

namespace FloatType

def all : List FloatType :=
  [f32, f64]

def name : FloatType → String
  | f32 => "f32"
  | f64 => "f64"

def ofName? (text : String) : Option FloatType :=
  all.find? fun ty => ty.name = text

end FloatType

inductive Ty where
  | int (ty : IntType)
  | float (ty : FloatType)
  | bool
  | char
  | str
  | tuple
  | list
  | set
  | dict
  | void
  /-- A structure under its full name, with the module in front. -/
  | named (name : String)
deriving DecidableEq, Repr, Inhabited

namespace Ty

def display : Ty → String
  | int ty => ty.name
  | float ty => ty.name
  | bool => "bool"
  | char => "char"
  | str => "str"
  | tuple => "tuple"
  | list => "list"
  | set => "set"
  | dict => "dict"
  | void => "void"
  | named name => name

def plain : List Ty :=
  [bool, char, str, tuple, list, set, dict, void]

/-- The built-in type of a name; structures are looked up elsewhere. -/
def ofName? (text : String) : Option Ty :=
  ((IntType.ofName? text).map int).or <|
    ((FloatType.ofName? text).map float).or <|
      plain.find? fun ty => ty.display = text

end Ty

inductive ResultType where
  | known (ty : Ty)
  /-- What the expression itself says, as a literal or a collection does. -/
  | own
  | undetermined
deriving DecidableEq, Repr, Inhabited

namespace ResultType

def known? : ResultType → Option Ty
  | known ty => some ty
  | _ => none

def isUndetermined : ResultType → Bool
  | undetermined => true
  | _ => false

def display : ResultType → String
  | known ty => ty.display
  | own => "self"
  | undetermined => "undefined"

end ResultType

end ExprCheck
