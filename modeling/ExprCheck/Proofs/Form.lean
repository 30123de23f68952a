import ExprCheck.Form.OfTokens
/-! Forms of values. A form is that of a value if an analysis of it can only fail for the types and
the callees of its parts. Nothing in it is invalid or missing, and every name in it that stands for
a value is defined; the names of calls are not looked at. -/
namespace ExprCheck

mutual

def Form.IsValue (lookup : Lookup) : Form → Prop
  | .invalid _ => False
  | .literal _ | .empty _ => True
  | .name text _ => (lookup text).isSome
  | .tuple items _ => Part.AllValues lookup items
  | .group _ _ inner => inner.IsValue lookup
  | .call _ _ args _ => Part.AllValues lookup args
  | .operation first rest => first.IsValue lookup ∧ Operation.AllValues lookup rest
termination_by structural form => form

def Part.AllValues (lookup : Lookup) : List Part → Prop
  | [] => True
  | .missing :: _ => False
  | .run _ form :: rest => form.IsValue lookup ∧ Part.AllValues lookup rest
termination_by structural parts => parts

def Operand.IsValue (lookup : Lookup) : Operand → Prop
  | .mk _ form => form.IsValue lookup
termination_by structural operand => operand

def Operation.AllValues (lookup : Lookup) : List Operation → Prop
  | [] => True
  | .mk _ _ operand :: rest => operand.IsValue lookup ∧ Operation.AllValues lookup rest
termination_by structural operations => operations

end

mutual

def Form.literals : Form → List Literal
  | .literal value => [value]
  | .invalid _ | .empty _ | .name .. => []
  | .tuple items _ => Part.literals items
  | .group _ _ inner => inner.literals
  | .call _ _ args _ => Part.literals args
  | .operation first rest => first.literals ++ Operation.literals rest
termination_by structural form => form

def Part.literals : List Part → List Literal
  | [] => []
  | .missing :: rest => Part.literals rest
  | .run _ form :: rest => form.literals ++ Part.literals rest
termination_by structural parts => parts

def Operand.literals : Operand → List Literal
  | .mk _ form => form.literals
termination_by structural operand => operand

def Operation.literals : List Operation → List Literal
  | [] => []
  | .mk _ _ operand :: rest => operand.literals ++ Operation.literals rest
termination_by structural operations => operations

end

end ExprCheck
