import TypedTrees.Ty
/-!
The operators of unary and binary nodes, and the three shapes of a reference call.
-/
namespace TypedTrees

/-- What a unary node does to its operand. -/
inductive UnaryOp where
  | not
  | negate
  | convert (target : Ty)
  deriving DecidableEq

namespace UnaryOp

/-- The operator's name, as error texts and dumps build on it. -/
def name : UnaryOp → String
  | not => "Not"
  | negate => "Negate"
  | convert _ => "Convert"

end UnaryOp

/-- What a binary node does to its operands. `andAlso` and `orElse` stop at the left operand when
it settles the answer; `and` and `or` always take both. -/
inductive BinaryOp where
  | add
  | subtract
  | multiply
  | divide
  | equal
  | notEqual
  | lessThan
  | lessThanOrEqual
  | greaterThan
  | greaterThanOrEqual
  | andAlso
  | orElse
  | and
  | or
  deriving DecidableEq

namespace BinaryOp

/-- The sign written between the operands. -/
def symbol : BinaryOp → String
  | add => "+"
  | subtract => "-"
  | multiply => "*"
  | divide => "/"
  | equal => "=="
  | notEqual => "!="
  | lessThan => "<"
  | lessThanOrEqual => "<="
  | greaterThan => ">"
  | greaterThanOrEqual => ">="
  | andAlso => "&&"
  | orElse => "||"
  | and => "&"
  | or => "|"

def name : BinaryOp → String
  | add => "Add"
  | subtract => "Subtract"
  | multiply => "Multiply"
  | divide => "Divide"
  | equal => "Equal"
  | notEqual => "NotEqual"
  | lessThan => "LessThan"
  | lessThanOrEqual => "LessThanOrEqual"
  | greaterThan => "GreaterThan"
  | greaterThanOrEqual => "GreaterThanOrEqual"
  | andAlso => "AndAlso"
  | orElse => "OrElse"
  | and => "And"
  | or => "Or"

def tag : BinaryOp → String
  | add => "add"
  | subtract => "subtract"
  | multiply => "multiply"
  | divide => "divide"
  | equal => "equal"
  | notEqual => "not_equal"
  | lessThan => "less_than"
  | lessThanOrEqual => "less_than_or_equal"
  | greaterThan => "greater_than"
  | greaterThanOrEqual => "greater_than_or_equal"
  | andAlso => "and_also"
  | orElse => "or_else"
  | and => "and"
  | or => "or"

/-- Whether a node of this operator is always typed as a boolean. -/
def isPredicate : BinaryOp → Bool
  | add | subtract | multiply | divide => false
  | _ => true

end BinaryOp

/-- The shapes of a reference call, by the number of arguments after the holder. -/
inductive InvokeShape where
  | one
  | two
  | three
  deriving DecidableEq

namespace InvokeShape

/-- The shape that takes this many arguments, if there is one. -/
def ofArity? : Nat → Option InvokeShape
  | 1 => some one
  | 2 => some two
  | 3 => some three
  | _ => none

def arity : InvokeShape → Nat
  | one => 1
  | two => 2
  | three => 3

def name : InvokeShape → String
  | one => "One"
  | two => "Two"
  | three => "Three"

def tag : InvokeShape → String
  | one => "one"
  | two => "two"
  | three => "three"

end InvokeShape

end TypedTrees
